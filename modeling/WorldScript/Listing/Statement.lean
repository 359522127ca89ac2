import WorldScript.Listing.Expr
import WorldScript.Program.Basic

/-! # Listings of statements and programs -/

namespace WorldScript

open Listing

/-- The name of an operator in listings. -/
def CompoundOp.listed : CompoundOp → String
  | add => "Add"
  | sub => "Subtract"
  | mul => "Multiply"
  | div => "Divide"

/-- The listing of a change. -/
def Change.listed : Change → String
  | add item => applied "Add" [item.listed]
  | addKeyed key item => record "AddKeyed" [("key", key.listed), ("value", item.listed)]
  | addRange items => applied "AddRange" [items.listed]
  | remove item => applied "Remove" [item.listed]
  | removeAt index => applied "RemoveAt" [index.listed]
  | clear => "Clear"
  | set key item => record "Set" [("key", key.listed), ("value", item.listed)]
  | removeKey key => applied "RemoveKey" [key.listed]

/-- The field for a line. -/
def Listing.lineField (line : Nat) : String × String := ("line", toString line)

namespace Statement

mutual

/-- The listing of a statement. -/
def listed : Statement → String
  | declare line name type initial =>
    wrapped "Declare" "Declare" [("name", Text.quoted name), ("ty", type.listed),
      ("initializer", optional (initial.map (·.listed))), lineField line]
  | assign line name value =>
    wrapped "Assign" "Assign" [("name", Text.quoted name), ("value", value.listed), lineField line]
  | compound line name op value =>
    wrapped "CompoundAssign" "CompoundAssign" [("name", Text.quoted name), ("op", op.listed),
      ("value", value.listed), lineField line]
  | ifChain line arms otherwise =>
    wrapped "If" "If" [("arms", sequence (listedSections "Arm" "condition" arms)),
      ("else_branch", optional (listedBody? otherwise)), lineField line]
  | forCount line name count body =>
    wrapped "For" "For" [("variable", Text.quoted name), ("count", count.listed),
      ("body", sequence (listedAll body)), lineField line]
  | forEach line name element items body =>
    wrapped "ForEach" "ForEach" [("variable", Text.quoted name), ("element_type", element.listed),
      ("collection", items.listed), ("body", sequence (listedAll body)), lineField line]
  | whileLoop line test body =>
    wrapped "While" "While" [("condition", test.listed), ("body", sequence (listedAll body)),
      lineField line]
  | switch line value cases otherwise =>
    wrapped "Switch" "Switch" [("value", value.listed),
      ("cases", sequence (listedSections "Case" "value" cases)),
      ("default", optional (listedBody? otherwise)), lineField line]
  | breakOut => "Break"
  | continueOn => "Continue"
  | returnWith line value =>
    wrapped "Return" "Return" [("value", optional (value.map (·.listed))), lineField line]
  | change line name c =>
    wrapped "Collection" "CollectionStatement" [("variable", Text.quoted name), ("op", c.listed),
      lineField line]
  | call line e => wrapped "Call" "Call" [("expression", e.listed), lineField line]
  | delay line duration body =>
    wrapped "Delay" "Delay" [("duration", duration.listed), ("body", sequence (listedAll body)),
      lineField line]

/-- The listings of some statements. -/
def listedAll : List Statement → List String
  | [] => []
  | s :: rest => listed s :: listedAll rest

/-- The listing of a body that may be missing. -/
def listedBody? : Option (List Statement) → Option String
  | none => none
  | some body => some (sequence (listedAll body))

/-- The listings of some sections, with a name for them and one for their guards. -/
def listedSections (name guard : String) : List Section → List String
  | [] => []
  | .mk line test body :: rest =>
    record name [(guard, test.listed), ("body", sequence (listedAll body)), lineField line] ::
      listedSections name guard rest

end

end Statement

/-- The listing of a program. -/
def Program.listed (p : Program) : String :=
  record "Prog" [("name", Text.quoted p.name), ("return_type", p.returns.listed),
    ("parameters", sequence (p.parameters.map fun (name, type) =>
      applied "" [Text.quoted name, type.listed])),
    ("body", sequence (Statement.listedAll p.body))]

end WorldScript
