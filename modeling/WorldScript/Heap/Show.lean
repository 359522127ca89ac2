import WorldScript.Heap.Basic
import WorldScript.Number.Layout

/-! # Values as text

A value whose cells lead back to one of themselves has no text of its own; it is shown as nothing. -/

namespace WorldScript

/-- Texts with a separator between them. -/
def joined (parts : List String) : String := ", ".intercalate parts

/-- The texts of all items, if each of them has one. -/
def showAll {α : Type} (text : α → Option String) : List α → Option (List String)
  | [] => some []
  | a :: rest => do
    let first ← text a
    let others ← showAll text rest
    return first :: others

namespace Heap

/-- The text of a value that is nested at most `depth` cells deep. -/
def showWithin (h : Heap) : Nat → Value → Option String
  | _, .null => some "null"
  | _, .number n => some (Number.shown n)
  | _, .text s => some s
  | _, .boolean b => some (if b then "true" else "false")
  | _, .entity e => some e.name
  | 0, .collection _ => none
  | 0, .dictionary _ => none
  | 0, .groups _ => none
  | depth + 1, .collection i =>
    (showAll (h.showWithin depth) (h.lists.get i)).map fun parts => "[" ++ joined parts ++ "]"
  | depth + 1, .dictionary i =>
    (showAll (fun e => (h.showWithin depth e.2).map fun shown => e.1 ++ ": " ++ shown)
      (h.dicts.get i).entries).map fun parts => "\x7b" ++ joined parts ++ "\x7d"
  | depth + 1, .groups i =>
    (showAll (fun e => (showAll (h.showWithin depth) e.2).map fun parts =>
      e.1 ++ ": [" ++ joined parts ++ "]") (h.groups.get i).entries).map fun parts =>
        "\x7b" ++ joined parts ++ "\x7d"

/-- The text of a value: what messages and concatenation show. A chain of distinct cells is no
longer than the heap. -/
def render (h : Heap) (v : Value) : String := (h.showWithin (h.size + 1) v).getD ""

end Heap

end WorldScript
