import WorldScript.Expr.Token
import WorldScript.Expr.Tree

/-! # Reading expressions

From the weakest to the strongest, operators are `or`, `and`, comparisons, sums, products (all of
them grouping to the left), prefix minus and `not`, and indexing in brackets. An operand of a
product is read with a *budget*: every operator before an operand, every pair of brackets and every
argument list takes one unit of it, so that no expression is nested deeper than `maxDepth`; no tree
is taller than that either. -/

namespace WorldScript.Tree

/-- The greatest depth of an expression. -/
def maxDepth : Nat := 100

/-- The ways in which a text is not an expression. -/
inductive ReadError
  | scan (e : Token.ScanError)
  | tooDeep
  | expectedCloseBracket
  | expectedCloseParen
  | expectedCloseArguments (name : String)
  | unexpectedEnd
  | unexpectedCharacter (c : Char)
  | unexpectedToken (t : Token)
  /-- The expression ends before this token. -/
  | trailing (t : Token)

/-- What is told about a text that is not an expression. -/
def ReadError.message : ReadError → String
  | scan e => e.message
  | tooDeep => "expression nested too deeply"
  | expectedCloseBracket => "expected ']'"
  | expectedCloseParen => "expected ')'"
  | expectedCloseArguments name => s!"expected ')' after arguments to {name}"
  | unexpectedEnd => "unexpected end of expression"
  | unexpectedCharacter c => "unexpected character '" ++ String.ofList [c] ++ "'"
  | unexpectedToken t => "unexpected token " ++ t.listed
  | trailing t => "unexpected " ++ t.listed ++ " after expression"

/-- Reads something at the start of a list of tokens and gives the tokens after it. -/
abbrev Reader (α : Type) := List Token → Except ReadError (α × List Token)

/-- The tree, unless it is too tall. -/
def bounded (t : Tree) : Except ReadError Tree :=
  if maxDepth < t.height then .error .tooDeep else .ok t

/-! ### Operators by strength -/

def orOp? : Token → Option BinaryOp
  | .or => some .or
  | _ => none

def andOp? : Token → Option BinaryOp
  | .and => some .and
  | _ => none

def comparisonOp? : Token → Option BinaryOp
  | .equal => some .equal
  | .unequal => some .unequal
  | .less => some .less
  | .atMost => some .atMost
  | .greater => some .greater
  | .atLeast => some .atLeast
  | _ => none

def sumOp? : Token → Option BinaryOp
  | .plus => some .add
  | .minus => some .sub
  | _ => none

def productOp? : Token → Option BinaryOp
  | .star => some .mul
  | .slash => some .div
  | .percent => some .rem
  | _ => none

/-- At most `n` more operators and operands after a left operand. -/
def chainAfter (op? : Token → Option BinaryOp) (operand : Reader Tree) : Nat → Tree → Reader Tree
  | 0, left, ts => .ok (left, ts)
  | _ + 1, left, [] => .ok (left, [])
  | n + 1, left, t :: ts =>
    match op? t with
    | none => .ok (left, t :: ts)
    | some op => do
      let (right, rest) ← operand ts
      let both ← bounded (.binary op left right)
      chainAfter op? operand n both rest

/-- Operands with operators between them, grouped to the left. -/
def chain (op? : Token → Option BinaryOp) (operand : Reader Tree) : Reader Tree := fun ts => do
  let (left, rest) ← operand ts
  chainAfter op? operand rest.length left rest

/-- An expression over the given operands of products. -/
def expression (operand : Reader Tree) : Reader Tree :=
  chain orOp? (chain andOp? (chain comparisonOp? (chain sumOp? (chain productOp? operand))))

/-! ### Operands -/

/-- At most `n` more indices after a target. -/
def indicesAfter (inner : Reader Tree) : Nat → Tree → Reader Tree
  | n + 1, target, .openBracket :: ts => do
    let (key, rest) ← inner ts
    match rest with
    | .closeBracket :: rest =>
      let both ← bounded (.index target key)
      indicesAfter inner n both rest
    | _ => .error .expectedCloseBracket
  | _, target, ts => .ok (target, ts)

/-- At most `n` more arguments, each after a comma. -/
def argumentsAfter (inner : Reader Tree) : Nat → Reader (List Tree)
  | n + 1, .comma :: ts => do
    let (first, rest) ← inner ts
    let (others, rest) ← argumentsAfter inner n rest
    return (first :: others, rest)
  | _, ts => .ok ([], ts)

/-- The arguments of a call, up to its closing parenthesis. -/
def arguments (inner : Reader Tree) : Reader (List Tree)
  | .closeParen :: ts => .ok ([], .closeParen :: ts)
  | ts => do
    let (first, rest) ← inner ts
    let (others, rest) ← argumentsAfter inner rest.length rest
    return (first :: others, rest)

/-- The tree of a word that is not called. -/
def ofWord (w : String) : Tree :=
  let key := Text.lower w
  if key = "true" then .boolean true else if key = "false" then .boolean false else .var w

/-- A literal, a name, a call or an expression in parentheses. -/
def primary (inner : Reader Tree) : Reader Tree
  | .number n :: ts => .ok (.number n, ts)
  | .text s :: ts => .ok (.text s, ts)
  | .var name :: ts => .ok (.var name, ts)
  | .word w :: .openParen :: ts => do
    let (args, rest) ← arguments inner ts
    match rest with
    | .closeParen :: rest => return (← bounded (.call w args), rest)
    | _ => .error (.expectedCloseArguments w)
  | .word w :: ts => .ok (ofWord w, ts)
  | .openParen :: ts => do
    let (t, rest) ← inner ts
    match rest with
    | .closeParen :: rest => return (t, rest)
    | _ => .error .expectedCloseParen
  | [] => .error .unexpectedEnd
  | .unknown c :: _ => .error (.unexpectedCharacter c)
  | t :: _ => .error (.unexpectedToken t)

/-- A primary expression with indices after it. -/
def indexed (inner : Reader Tree) : Reader Tree := fun ts => do
  let (t, rest) ← primary inner ts
  indicesAfter inner rest.length t rest

/-- An operand of a product, read with a budget of nesting. -/
def operand : Nat → Reader Tree
  | 0, _ => .error .tooDeep
  | budget + 1, .minus :: ts => do
    let (t, rest) ← operand budget ts
    return (← bounded (.unary .negate t), rest)
  | budget + 1, .bang :: ts => do
    let (t, rest) ← operand budget ts
    return (← bounded (.unary .not t), rest)
  | budget + 1, ts => indexed (expression (operand budget)) ts

/-! ### Whole texts -/

/-- The expression that a list of tokens is. -/
def ofTokens (ts : List Token) : Except ReadError Tree := do
  let (t, rest) ← expression (operand maxDepth) ts
  match rest with
  | [] => return t
  | .unknown c :: _ => .error (.unexpectedCharacter c)
  | u :: _ => .error (.trailing u)

/-- The expression that a text is. -/
def read (s : String) : Except ReadError Tree := do
  match Token.scan s with
  | .error e => .error (.scan e)
  | .ok ts => ofTokens ts

end WorldScript.Tree
