/-! # Expression trees -/

namespace WorldScript

/-- Operators between two operands. -/
inductive BinaryOp
  | add | sub | mul | div | rem
  | equal | unequal | less | atMost | greater | atLeast
  | and | or
  deriving DecidableEq, Repr

/-- The sign of an operator. -/
def BinaryOp.symbol : BinaryOp → String
  | add => "+"
  | sub => "-"
  | mul => "*"
  | div => "/"
  | rem => "%"
  | equal => "=="
  | unequal => "!="
  | less => "<"
  | atMost => "<="
  | greater => ">"
  | atLeast => ">="
  | and => "and"
  | or => "or"

/-- Operators before one operand. -/
inductive UnaryOp
  | negate | not
  deriving DecidableEq, Repr

/-- An expression as it was written. -/
inductive Tree
  | number (n : Float)
  | text (s : String)
  | boolean (b : Bool)
  | var (name : String)
  | unary (op : UnaryOp) (operand : Tree)
  | binary (op : BinaryOp) (left right : Tree)
  | index (target key : Tree)
  | call (name : String) (arguments : List Tree)

namespace Tree

mutual

/-- The number of nodes on the longest path down the tree. -/
def height : Tree → Nat
  | number _ => 1
  | text _ => 1
  | boolean _ => 1
  | var _ => 1
  | unary _ t => height t + 1
  | binary _ l r => max (height l) (height r) + 1
  | index t k => max (height t) (height k) + 1
  | call _ args => heightAll args + 1

/-- The height of the tallest of some trees. -/
def heightAll : List Tree → Nat
  | [] => 0
  | t :: ts => max (height t) (heightAll ts)

end

end Tree

end WorldScript
