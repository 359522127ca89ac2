import WorldScript.Heap.Basic
import WorldScript.Program.Basic
import WorldScript.Space

/-! # Arguments of programs

An argument must fit the type of its parameter. For a structural type the elements are looked at one
by one, so an empty structure fits whatever the element type is. -/

namespace WorldScript

/-- The ways in which arguments can be refused. -/
inductive ArgumentError
  | count (program : String) (expected actual : Nat)
  | type (program name : String) (expected actual : Ty)
  | strip (f : Ty.StripFault)

/-- What is told about refused arguments. -/
def ArgumentError.message : ArgumentError → String
  | count program expected actual =>
    s!"prog {program} expects {expected} argument(s), got {actual}"
  | type program name expected actual =>
    s!"argument {name} of prog {program} expects " ++ expected.describe ++ ", got " ++
      actual.describe
  | strip f => f.message

namespace Ty

/-- Parameters of this type take no value at all for a value: all but numbers, texts, truth values
and structures. -/
def acceptsNull (t : Ty) : Bool :=
  !t.isStructural && t != .number && t != .text && t != .boolean

/-- The type that a value has instead of the expected one, which has no shape and no marks. -/
def plainMismatch? (expected : Ty) (v : Value) : Option Ty :=
  if (v.isNull && expected.acceptsNull) || expected.accepts v.type then none else some v.type

/-- The elements of a value, if that shape, alone, is the value's own. -/
def elementsIn? (shape : Ty) (h : Heap) : Value → Option (List Value)
  | .collection c => if shape = .collection then some (h.lists.get c) else none
  | .dictionary c =>
    if shape = .dictionary then some ((h.dicts.get c).entries.map (·.2)) else none
  | .groups c => if shape = .groups then some ((h.groups.get c).entries.flatMap (·.2)) else none
  | _ => none

/-- The type that a value has instead of the expected one. That of a structure is the type of the
first element that does not fit, with the shape. The elements of a structure of one shape are
plain. -/
def mismatch? (expected : Ty) (h : Heap) (v : Value) : Except StripFault (Option Ty) := do
  match ← expected.element with
  | none => return expected.unmarked.plainMismatch? v
  | some element =>
    match elementsIn? expected.structural h v with
    | none => return some v.type
    | some items => return (items.findSome? element.plainMismatch?).map (· ||| expected.structural)

end Ty

namespace Program

/-- The space with the arguments as variables. -/
def bindAll (program : String) (h : Heap) :
    List ((String × Ty) × Value) → Space → Except ArgumentError Space
  | [], vars => .ok vars
  | ((name, type), v) :: rest, vars =>
    match type.mismatch? h v with
    | .error f => .error (.strip f)
    | .ok (some actual) => .error (.type program name type actual)
    | .ok none => bindAll program h rest ((vars.declare? name type v).getD vars)

/-- The variables with which a run starts: the arguments, and the slot for the answer if there is to
be one. -/
def bindArguments (p : Program) (arguments : List Value) (h : Heap) :
    Except ArgumentError (Space × Heap) :=
  if arguments.length ≠ p.parameters.length then
    .error (.count p.name p.parameters.length arguments.length)
  else do
    let vars ← bindAll p.name h (p.parameters.zip arguments) .empty
    if p.returns.isVoid then return (vars, h)
    else
      let (v, h) := h.initial p.returns
      return ((vars.declare? Name.returnSlot p.returns v).getD vars, h)

end Program

end WorldScript
