import WorldScript.Dict
import WorldScript.Ty.Basic
import WorldScript.Text.Fold

/-! # Scopes

The variables that are visible at one place of a source, with their types. Names are kept in lower
case. -/

namespace WorldScript

/-- Visible names and their types. -/
structure Scope where
  types : Dict Ty
  deriving DecidableEq

namespace Scope

instance : Inhabited Scope := ⟨⟨.empty⟩⟩

/-- Nothing is visible. -/
def empty : Scope := ⟨.empty⟩

/-- The type of a visible variable. -/
def lookup (s : Scope) (name : String) : Option Ty := s.types.find? (Text.lower name)

/-- The variable is visible. -/
def declares (s : Scope) (name : String) : Bool := (s.lookup name).isSome

/-- The scope with one more variable, which hides one of the same name. -/
def add (s : Scope) (name : String) (type : Ty) : Scope :=
  ⟨s.types.insert (Text.lower name) type⟩

/-- The visible variables in name order. -/
def toList (s : Scope) : List (String × Ty) := s.types.entries

/-- The number of visible variables. -/
def size (s : Scope) : Nat := s.types.size

@[simp] theorem lookup_add_self (s : Scope) (name : String) (type : Ty) :
    (s.add name type).lookup name = some type := s.types.find?_insert_self _ _

theorem lookup_add_of_ne (s : Scope) {name other : String} (type : Ty)
    (h : Text.lower other ≠ Text.lower name) :
    (s.add name type).lookup other = s.lookup other := s.types.find?_insert_of_ne _ h

end Scope

end WorldScript
