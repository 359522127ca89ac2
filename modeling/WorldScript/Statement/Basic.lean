import WorldScript.Expr.Checked

/-! # Statements

The tree of a compiled program. Every statement that can fail keeps the line it stood on.

`Statement.returns` says of a statement, and `returnsAll` of a sequence, that every path through it
ends in a `return`. Loops never count: their bodies may not run at all. -/

namespace WorldScript

/-- The operators of compound assignments. -/
inductive CompoundOp
  | add | sub | mul | div
  deriving DecidableEq, Repr

/-- The sign of a compound assignment. -/
def CompoundOp.symbol : CompoundOp → String
  | add => "+="
  | sub => "-="
  | mul => "*="
  | div => "/="

/-- What a statement does to a structural variable. -/
inductive Change
  | add (item : Checked)
  | addKeyed (key item : Checked)
  | addRange (items : Checked)
  | remove (item : Checked)
  | removeAt (index : Checked)
  | clear
  | set (key item : Checked)
  | removeKey (key : Checked)

/-- The expressions of a change, in the order of their evaluation. -/
def Change.expressions : Change → List Checked
  | clear => []
  | add e | addRange e | remove e | removeAt e | removeKey e => [e]
  | addKeyed k e | set k e => [k, e]

mutual

/-- A statement. -/
inductive Statement
  | declare (line : Nat) (name : String) (type : Ty) (initial : Option Checked)
  | assign (line : Nat) (name : String) (value : Checked)
  | compound (line : Nat) (name : String) (op : CompoundOp) (value : Checked)
  /-- `if` with its `elseif` arms and perhaps an `else`. -/
  | ifChain (line : Nat) (arms : List Section) (otherwise : Option (List Statement))
  /-- `for`: the name counts from one. -/
  | forCount (line : Nat) (name : String) (count : Checked) (body : List Statement)
  | forEach (line : Nat) (name : String) (element : Ty) (items : Checked) (body : List Statement)
  | whileLoop (line : Nat) (test : Checked) (body : List Statement)
  | switch (line : Nat) (value : Checked) (cases : List Section)
      (otherwise : Option (List Statement))
  /-- `break` -/
  | breakOut
  /-- `continue` -/
  | continueOn
  /-- `return` -/
  | returnWith (line : Nat) (value : Option Checked)
  | change (line : Nat) (name : String) (change : Change)
  /-- A call whose answer is not used. -/
  | call (line : Nat) (expression : Checked)
  | delay (line : Nat) (duration : Checked) (body : List Statement)

/-- A guarded part of an `if` or a `switch`. -/
inductive Section
  | mk (line : Nat) (test : Checked) (body : List Statement)

end

namespace Section

/-- The line of the guard. -/
def line : Section → Nat
  | mk line _ _ => line

/-- The condition, or the value to be matched. -/
def test : Section → Checked
  | mk _ test _ => test

/-- The statements under the guard. -/
def body : Section → List Statement
  | mk _ _ body => body

end Section

namespace Statement

mutual

/-- Every path through the statement ends in a `return`. -/
def returns : Statement → Bool
  | returnWith _ _ => true
  | ifChain _ arms (some body) => returnsAll body && sectionsReturn arms
  | switch _ _ cases (some body) => returnsAll body && sectionsReturn cases
  | _ => false

/-- Every path through the sequence ends in a `return`, before any `break` or `continue`. -/
def returnsAll : List Statement → Bool
  | [] => false
  | breakOut :: _ => false
  | continueOn :: _ => false
  | s :: rest => returns s || returnsAll rest

/-- Every path through each section ends in a `return`. -/
def sectionsReturn : List Section → Bool
  | [] => true
  | .mk _ _ body :: rest => returnsAll body && sectionsReturn rest

end

end Statement

end WorldScript
