import WorldScript.Ty.Basic

/-! # Values

Numbers, texts, booleans and entities are plain values. A structural value is the address of a cell
in the heap, so that all values with one address see each other's changes. -/

namespace WorldScript

/-- A thing of the game world, known by its kind and number. -/
structure Entity where
  kind : Ty
  id : Int
  name : String

/-- A value of a running program. -/
inductive Value
  /-- Nothing: what entity variables start with. -/
  | null
  | number (n : Float)
  | text (s : String)
  | boolean (b : Bool)
  | entity (e : Entity)
  /-- A sequence, by the address of its cell. -/
  | collection (cell : Nat)
  /-- A dictionary, by the address of its cell. -/
  | dictionary (cell : Nat)
  /-- A dictionary of sequences, by the address of its cell. -/
  | groups (cell : Nat)

namespace Value

instance : Inhabited Value := ⟨null⟩

/-- The number of a number. -/
def number? : Value → Option Float
  | number n => some n
  | _ => none

/-- The text of a text. -/
def text? : Value → Option String
  | text s => some s
  | _ => none

/-- The truth value of a boolean. -/
def boolean? : Value → Option Bool
  | boolean b => some b
  | _ => none

/-- The value is nothing. -/
def isNull : Value → Bool
  | null => true
  | _ => false

/-- The narrowest type of a value. A structural value does not know the type of its elements. -/
def type : Value → Ty
  | null => .void
  | number _ => .number
  | text _ => .text
  | boolean _ => .boolean
  | entity e => e.kind
  | collection _ => .anything ||| .collection
  | dictionary _ => .anything ||| .dictionary
  | groups _ => .anything ||| .groups

end Value

end WorldScript
