import WorldScript.Ty.Basic
import WorldScript.Text.Blank
import WorldScript.Text.Fold

/-! # Names of types

`Ty.describe` is the name that messages show, `Ty.listed` the form of listings, which also tells the
marks, and `Ty.read` reads the names that source texts use. -/

namespace WorldScript

namespace Ty

/-- The names of single kinds. -/
def kindNames : List (Ty × String) := [
  (void, "Void"), (number, "Number"), (text, "Text"), (boolean, "Boolean"),
  (character, "Character"), (item, "Item"), (location, "Location"), (zone, "Zone"),
  (shard, "Shard"), (exit, "Exit"), (gender, "Gender"), (timespan, "TimeSpan"),
  (datetime, "DateTime"), (effect, "Effect")]

/-- The names of unions of kinds. -/
def capabilityNames : List (Ty × String) := [
  (anything, "Anything"), (perceivable, "Perceivable"), (perceiver, "Perceiver")]

/-- The name of a set of kinds: its own name if it has one, otherwise those of its members. -/
def describeKinds (base : Ty) : String :=
  match (capabilityNames ++ kindNames).lookup base with
  | some name => name
  | none =>
    match kindNames.filterMap fun (k, name) => if base.contains k then some name else none with
    | [] => "Unknown"
    | names => " or ".intercalate names

/-- The name of the shape, groups before dictionaries before collections. -/
def describeShape (t : Ty) : String :=
  if t.contains groups then " CollectionDictionary"
  else if t.contains dictionary then " Dictionary"
  else if t.contains collection then " Collection"
  else ""

/-- The name of the type, such as `Text Dictionary`. -/
def describe (t : Ty) : String := describeKinds t.base ++ t.describeShape

/-- The type as listings write it. -/
def listed (t : Ty) : String :=
  "ProgVariableType(" ++ t.describe ++ (if t.contains literal then ", literal" else "") ++
    (if t.contains reference then ", reference" else "") ++ ")"

/-- What a failed removal of a flag says. -/
def StripFault.message (f : StripFault) : String :=
  "cannot strip " ++ f.flag.listed ++ " from " ++ f.type.listed ++ ": flag not present"

/-! ### Reading -/

/-- The ways in which a text is not the name of a type. -/
inductive NameError
  | missing
  | unknown (word : String)
  | unknownModifier (word : String)
  | unexpected (word : String)
  | structuralVoid
  deriving DecidableEq

/-- What is told about a name that could not be read. -/
def NameError.message : NameError → String
  | missing => "missing type name"
  | unknown word => s!"unknown type '{word}'"
  | unknownModifier word => s!"unknown type modifier '{word}'"
  | unexpected word => s!"unexpected '{word}' in type name"
  | structuralVoid => "void cannot be a collection or dictionary"

/-- The words for sets of kinds. -/
def baseWords : List (String × Ty) := [
  ("void", void), ("number", number), ("text", text), ("boolean", boolean), ("bool", boolean),
  ("character", character), ("item", item), ("location", location), ("zone", zone),
  ("shard", shard), ("exit", exit), ("gender", gender), ("timespan", timespan),
  ("datetime", datetime), ("effect", effect), ("perceiver", perceiver),
  ("perceivable", perceivable), ("anything", anything)]

/-- The words for shapes. -/
def shapeWords : List (String × Ty) := [
  ("collection", collection), ("dictionary", dictionary), ("collectiondictionary", groups)]

/-- The type that a list of lower-case words names: a set of kinds and at most one shape. -/
def ofWords : List String → Except NameError Ty
  | [] => .error .missing
  | first :: rest =>
    match baseWords.lookup first with
    | none => .error (.unknown first)
    | some base =>
      match rest with
      | [] => .ok base
      | second :: more =>
        match shapeWords.lookup second with
        | none => .error (.unknownModifier second)
        | some shape =>
          match more with
          | extra :: _ => .error (.unexpected extra)
          | [] => if base = void then .error .structuralVoid else .ok (base ||| shape)

/-- The type that a text names, the case of ASCII letters aside. -/
def read (s : String) : Except NameError Ty :=
  ofWords ((Text.words s.toList).map fun w => Text.lower (String.ofList w))

end Ty

end WorldScript
