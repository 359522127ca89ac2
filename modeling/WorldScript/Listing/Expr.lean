import WorldScript.Expr.Checked
import WorldScript.Listing.Form
import WorldScript.Number.Layout
import WorldScript.Text.Quoted
import WorldScript.Ty.Name

/-! # Listings of expressions and libraries -/

namespace WorldScript

open Listing

/-- The name of an operation in listings. -/
def Arithmetic.listed : Arithmetic → String
  | add => "Add"
  | sub => "Sub"
  | mul => "Mul"
  | div => "Div"
  | rem => "Rem"

/-- The name of a comparison in listings. -/
def Comparison.listed : Comparison → String
  | equal => "Eq"
  | unequal => "Ne"
  | less => "Lt"
  | atMost => "Le"
  | greater => "Gt"
  | atLeast => "Ge"

/-- The listing of a constant. -/
def Literal.listed : Literal → String
  | number n => applied "Number" [Number.listed n]
  | text s => applied "Text" [Text.quoted s]
  | boolean b => applied "Boolean" [toString b]

namespace Checked

/-- The listing of an expression whose inner part is given. -/
def listedAs (type : Ty) (node : String) : String :=
  record "CompiledExpression" [("node", node), ("return_type", type.listed)]

mutual

/-- The listing of an expression. -/
def listed : Checked → String
  | literal l => listedAs l.type (applied "Literal" [l.listed])
  | var name type => listedAs type (applied "Variable" [Text.quoted name])
  | negate a => listedAs .number (applied "Negate" [a.listed])
  | not a => listedAs .boolean (applied "Not" [a.listed])
  | arithmetic op a b => listedAs .number (applied "Arithmetic" [op.listed, a.listed, b.listed])
  | concat a b => listedAs .text (applied "Concat" [a.listed, b.listed])
  | compare op a b => listedAs .boolean (applied "Compare" [op.listed, a.listed, b.listed])
  | and a b => listedAs .boolean (applied "And" [a.listed, b.listed])
  | or a b => listedAs .boolean (applied "Or" [a.listed, b.listed])
  | index a b type => listedAs type (applied "Index" [a.listed, b.listed])
  | call f arguments =>
    listedAs f.returns (applied "Call" [f.signature, sequence (listedAll arguments)])

/-- The listings of some expressions. -/
def listedAll : List Checked → List String
  | [] => []
  | e :: rest => e.listed :: listedAll rest

end

end Checked

/-- The listing of a library: the names of its functions. -/
def Library.listed (l : Library) : String :=
  record "FunctionLibrary" [("functions", sequence (l.names.map Text.quoted))]

end WorldScript
