import WorldScript.Heap.Basic

/-! # The world outside of variables -/

namespace WorldScript

/-- What functions can read and change: the cells of structural values, and the notes that host
functions have made. -/
structure World where
  heap : Heap
  notes : List String

namespace World

instance : Inhabited World := ⟨⟨.empty, []⟩⟩

/-- No cells and no notes. -/
def empty : World := ⟨.empty, []⟩

/-- The world with one more note. -/
def note (w : World) (text : String) : World := { w with notes := w.notes ++ [text] }

end World

end WorldScript
