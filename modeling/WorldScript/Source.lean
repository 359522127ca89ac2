import WorldScript.Text.Blank

/-! # Source texts

A source is a list of lines. Blank lines and comments are dropped; every other line is trimmed and
keeps its number. -/

namespace WorldScript

/-- A significant line of a source. -/
structure Line where
  /-- Its place in the source, from one. -/
  number : Nat
  /-- The line without the blanks around it. -/
  text : String
  deriving DecidableEq, Repr

namespace Source

/-- The line is blank or a comment. -/
def isIgnorable (line : List Char) : Bool :=
  match Text.trim line with
  | [] => true
  | '#' :: _ => true
  | '/' :: '/' :: _ => true
  | _ => false

/-- The significant ones of a list of lines, the first of which has the given number. -/
def significant (number : Nat) : List (List Char) → List Line
  | [] => []
  | raw :: rest =>
    if isIgnorable raw then significant (number + 1) rest
    else ⟨number, String.ofList (Text.trim raw)⟩ :: significant (number + 1) rest

/-- The significant lines of a source. -/
def lines (source : String) : List Line := significant 1 (Text.lines source.toList)

end Source

end WorldScript
