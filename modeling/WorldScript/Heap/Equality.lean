import WorldScript.Heap.Basic

/-! # Equality of values

Plain values are equal by contents, entities by kind and number. Structural values of one shape are
equal if they are one cell, or if their contents are equal one by one. -/

namespace WorldScript

/-- Two lists have the same length and related items. -/
def sameItems {α : Type} (same : α → α → Bool) : List α → List α → Bool
  | [], [] => true
  | a :: as, b :: bs => same a b && sameItems same as bs
  | _, _ => false

/-- Two entries have the same key and related values. -/
def sameEntry {α : Type} (same : α → α → Bool) (a b : String × α) : Bool :=
  a.1 == b.1 && same a.2 b.2

namespace Heap

/-- Equality of values that are nested at most `depth` cells deep. -/
def sameWithin (h : Heap) : Nat → Value → Value → Bool
  | _, .null, .null => true
  | _, .number a, .number b => a == b
  | _, .text a, .text b => a == b
  | _, .boolean a, .boolean b => a == b
  | _, .entity a, .entity b => a.kind == b.kind && a.id == b.id
  | 0, .collection a, .collection b => a == b
  | 0, .dictionary a, .dictionary b => a == b
  | 0, .groups a, .groups b => a == b
  | depth + 1, .collection a, .collection b =>
    a == b || sameItems (h.sameWithin depth) (h.lists.get a) (h.lists.get b)
  | depth + 1, .dictionary a, .dictionary b =>
    a == b ||
      sameItems (sameEntry (h.sameWithin depth)) (h.dicts.get a).entries (h.dicts.get b).entries
  | depth + 1, .groups a, .groups b =>
    a == b ||
      sameItems (sameEntry (sameItems (h.sameWithin depth))) (h.groups.get a).entries
        (h.groups.get b).entries
  | _, _, _ => false

/-- The values are equal. A chain of distinct pairs of cells is no longer than the square of the
heap. -/
def same (h : Heap) (a b : Value) : Bool := h.sameWithin (h.size * h.size + 1) a b

/-- The sequence without its first item that equals the value. -/
def eraseFirst (h : Heap) (v : Value) : List Value → List Value
  | [] => []
  | a :: as => if h.same a v then as else a :: h.eraseFirst v as

end Heap

end WorldScript
