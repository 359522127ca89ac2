import WorldScript.Dict
import WorldScript.Value

/-! # The heap

The cells of structural values, in one pool for each shape. A cell is read, replaced, or put in at
the next free address; cells are never removed.

* `get_set_self`, `get_set_of_ne`: what is read after a cell was replaced.
* `get_alloc_self`, `get_alloc_of_lt`: what is read after a cell was added. -/

namespace WorldScript

/-- Cells of one sort by address. -/
structure Pool (α : Type) where
  cells : Array α

namespace Pool

variable {α : Type}

/-- No cells. -/
def empty : Pool α := ⟨#[]⟩

/-- The number of cells, which is the next free address. -/
def size (p : Pool α) : Nat := p.cells.size

/-- The contents of a cell. -/
def get [Inhabited α] (p : Pool α) (i : Nat) : α := p.cells[i]?.getD default

/-- The pool with other contents in a cell. -/
def set (p : Pool α) (i : Nat) (a : α) : Pool α := ⟨p.cells.setIfInBounds i a⟩

/-- A new cell and the pool with it. -/
def alloc (p : Pool α) (a : α) : Nat × Pool α := (p.size, ⟨p.cells.push a⟩)

@[simp] theorem size_set (p : Pool α) (i : Nat) (a : α) : (p.set i a).size = p.size := by
  simp [size, set]

@[simp] theorem size_alloc (p : Pool α) (a : α) : (p.alloc a).2.size = p.size + 1 := by
  simp [size, alloc]

theorem get_set_self [Inhabited α] {p : Pool α} {i : Nat} (h : i < p.size) (a : α) :
    (p.set i a).get i = a := by
  simp only [size] at h
  simp [get, set, h]

theorem get_set_of_ne [Inhabited α] (p : Pool α) {i j : Nat} (h : j ≠ i) (a : α) :
    (p.set i a).get j = p.get j := by
  simp [get, set, h.symm]

theorem get_alloc_self [Inhabited α] (p : Pool α) (a : α) :
    (p.alloc a).2.get (p.alloc a).1 = a := by
  simp [get, alloc, size]

theorem get_alloc_of_lt [Inhabited α] {p : Pool α} {i : Nat} (h : i < p.size) (a : α) :
    (p.alloc a).2.get i = p.get i := by
  simp only [size] at h
  simp [get, alloc, Array.getElem?_push, Nat.ne_of_lt h]

end Pool

/-- The cells of all structural values. -/
structure Heap where
  lists : Pool (List Value)
  dicts : Pool (Dict Value)
  groups : Pool (Dict (List Value))

namespace Heap

instance : Inhabited Heap := ⟨⟨.empty, .empty, .empty⟩⟩

/-- No cells. -/
def empty : Heap := ⟨.empty, .empty, .empty⟩

/-- The number of cells. -/
def size (h : Heap) : Nat := h.lists.size + h.dicts.size + h.groups.size

/-- A new sequence. -/
def newList (h : Heap) (items : List Value) : Value × Heap :=
  let (i, p) := h.lists.alloc items
  (.collection i, { h with lists := p })

/-- A new dictionary. -/
def newDict (h : Heap) (entries : Dict Value) : Value × Heap :=
  let (i, p) := h.dicts.alloc entries
  (.dictionary i, { h with dicts := p })

/-- A new dictionary of sequences. -/
def newGroups (h : Heap) (entries : Dict (List Value)) : Value × Heap :=
  let (i, p) := h.groups.alloc entries
  (.groups i, { h with groups := p })

/-- The heap with other contents in a sequence. -/
def setList (h : Heap) (i : Nat) (items : List Value) : Heap :=
  { h with lists := h.lists.set i items }

/-- The heap with other contents in a dictionary. -/
def setDict (h : Heap) (i : Nat) (entries : Dict Value) : Heap :=
  { h with dicts := h.dicts.set i entries }

/-- The heap with other contents in a dictionary of sequences. -/
def setGroups (h : Heap) (i : Nat) (entries : Dict (List Value)) : Heap :=
  { h with groups := h.groups.set i entries }

/-- The value that a variable of the type starts with: an empty cell of its own for a structural
type, zero, the empty text or false for those kinds, nothing otherwise. -/
def initial (h : Heap) (type : Ty) : Value × Heap :=
  if type.contains .groups then h.newGroups .empty
  else if type.contains .dictionary then h.newDict .empty
  else if type.contains .collection then h.newList []
  else if type.unmarked = .number then (.number 0, h)
  else if type.unmarked = .text then (.text "", h)
  else if type.unmarked = .boolean then (.boolean false, h)
  else (.null, h)

end Heap

end WorldScript
