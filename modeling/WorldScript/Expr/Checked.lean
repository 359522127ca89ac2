import WorldScript.Library.Basic
import WorldScript.Text.Quoted

/-! # Checked expressions

Expressions in which every variable and every call is resolved, so that each has a type. -/

namespace WorldScript

/-- Constants of expressions. -/
inductive Literal
  | number (n : Float)
  | text (s : String)
  | boolean (b : Bool)

/-- The value of a constant. -/
def Literal.value : Literal → Value
  | number n => .number n
  | text s => .text s
  | boolean b => .boolean b

/-- The type of a constant, with the mark of constants. -/
def Literal.type : Literal → Ty
  | number _ => .number ||| .literal
  | text _ => .text ||| .literal
  | boolean _ => .boolean ||| .literal

/-- Operations on two numbers. -/
inductive Arithmetic
  | add | sub | mul | div | rem
  deriving DecidableEq, Repr

/-- Comparisons of two values. -/
inductive Comparison
  | equal | unequal | less | atMost | greater | atLeast
  deriving DecidableEq, Repr

/-- An expression whose names are resolved. -/
inductive Checked
  | literal (l : Literal)
  | var (name : String) (type : Ty)
  | negate (operand : Checked)
  | not (operand : Checked)
  | arithmetic (op : Arithmetic) (left right : Checked)
  | concat (left right : Checked)
  | compare (op : Comparison) (left right : Checked)
  | and (left right : Checked)
  | or (left right : Checked)
  | index (target key : Checked) (type : Ty)
  | call (function : Function) (arguments : List Checked)

namespace Checked

/-- The type of the values of an expression. -/
def type : Checked → Ty
  | literal l => l.type
  | var _ type => type
  | negate _ => .number
  | not _ => .boolean
  | arithmetic _ _ _ => .number
  | concat _ _ => .text
  | compare _ _ _ => .boolean
  | and _ _ => .boolean
  | or _ _ => .boolean
  | index _ _ type => type
  | call f _ => f.returns

/-- The type without marks. -/
def plainType (e : Checked) : Ty := e.type.unmarked

end Checked

end WorldScript
