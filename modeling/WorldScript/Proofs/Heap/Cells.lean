import WorldScript.Heap.Equality
import WorldScript.Heap.Show

/-! # What the cells of a heap hold

The elements of a structural value are what its cell holds. `Adds` says how one heap comes from
another: all that existed exists, and nothing has come into an old cell but the given elements,
which may have come into the cell of the given value. A write, a removal and a new cell are all of
this sort.

* `adds_setList`, `adds_setDict`, `adds_setGroups`: the writes.
* `keeps_newList` and the like, `keeps_initial`: new cells.
* `same_of_plain`, `render_of_plain`: plain values are compared and shown without a look at a
  cell. -/

namespace WorldScript

namespace Value

/-- The shape of a value, none for a plain one. -/
def shape : Value → BitVec 3
  | collection _ => 1
  | dictionary _ => 2
  | groups _ => 4
  | _ => 0

variable {v : Value}

theorem shape_eq_one (h : v.shape = 1) : ∃ c, v = collection c := by
  cases v with
  | collection c => exact ⟨c, rfl⟩
  | _ => cases h

theorem shape_eq_two (h : v.shape = 2) : ∃ c, v = dictionary c := by
  cases v with
  | dictionary c => exact ⟨c, rfl⟩
  | _ => cases h

theorem shape_eq_four (h : v.shape = 4) : ∃ c, v = groups c := by
  cases v with
  | groups c => exact ⟨c, rfl⟩
  | _ => cases h

end Value

namespace Heap

/-- The elements of a structural value. -/
def elements (h : Heap) : Value → List Value
  | .collection c => h.lists.get c
  | .dictionary c => (h.dicts.get c).entries.map (·.2)
  | .groups c => (h.groups.get c).entries.flatMap (·.2)
  | _ => []

/-- The cell of the value, if it has one, exists. -/
def Live (h : Heap) : Value → Prop
  | .collection c => c < h.lists.size
  | .dictionary c => c < h.dicts.size
  | .groups c => c < h.groups.size
  | _ => True

variable {h h' h'' : Heap} {v target : Value} {added : List Value}

theorem elements_of_plain (hv : v.shape = 0) : h.elements v = [] := by
  cases v with
  | collection c => cases hv
  | dictionary c => cases hv
  | groups c => cases hv
  | _ => rfl

theorem live_of_plain (hv : v.shape = 0) : h.Live v := by
  cases v with
  | collection c => cases hv
  | dictionary c => cases hv
  | groups c => cases hv
  | _ => trivial

/-- All cells are still there, with some of what they held; only the cell of the target may hold
some of the added elements besides. -/
structure Adds (h h' : Heap) (target : Value) (added : List Value) : Prop where
  live : ∀ {v}, h.Live v → h'.Live v
  elements : ∀ {v}, h.Live v → ∀ x ∈ h'.elements v, x ∈ h.elements v ∨ (v = target ∧ x ∈ added)

/-- Nothing has come into an old cell. -/
def Keeps (h h' : Heap) : Prop := h.Adds h' .null []

theorem Keeps.mem (hk : h.Keeps h') (hv : h.Live v) {x : Value} (hx : x ∈ h'.elements v) :
    x ∈ h.elements v := by
  rcases Adds.elements hk hv x hx with hx | ⟨-, hx⟩
  · exact hx
  · cases hx

theorem Keeps.refl (h : Heap) : h.Keeps h := ⟨id, fun _ _ hx => Or.inl hx⟩

theorem Keeps.trans (h₁ : h.Keeps h') (h₂ : h'.Keeps h'') : h.Keeps h'' :=
  ⟨fun hv => h₂.live (h₁.live hv), fun hv _ hx => Or.inl (h₁.mem hv (h₂.mem (h₁.live hv) hx))⟩

/-! ### Writes -/

/-- What is found in a cell after a write is what was written, if it is that cell, or what was
there. -/
theorem mem_get_set {α : Type} [Inhabited α] {p : Pool α} {i c : Nat} (hi : i < p.size)
    (contents : α → List Value) {a : α} {x : Value} (hx : x ∈ contents ((p.set c a).get i)) :
    (i = c ∧ x ∈ contents a) ∨ x ∈ contents (p.get i) := by
  by_cases hic : i = c
  · subst hic
    rw [Pool.get_set_self hi] at hx
    exact Or.inl ⟨rfl, hx⟩
  · rw [Pool.get_set_of_ne _ hic] at hx
    exact Or.inr hx

theorem adds_setList (h : Heap) (c : Nat) {items : List Value}
    (hitems : ∀ x ∈ items, x ∈ h.elements (.collection c) ∨ x ∈ added) :
    h.Adds (h.setList c items) (.collection c) added := by
  constructor
  · intro v hv
    cases v with
    | collection i => simpa [Live, setList] using hv
    | _ => exact hv
  · intro v hv x hx
    cases v with
    | collection i =>
      rcases mem_get_set hv id hx with ⟨rfl, hwritten⟩ | hold
      · exact (hitems x hwritten).imp_right fun hnew => ⟨rfl, hnew⟩
      · exact Or.inl hold
    | _ => exact Or.inl hx

theorem mem_of_mem_eraseFirst {items : List Value} {v x : Value}
    (hx : x ∈ h.eraseFirst v items) : x ∈ items := by
  induction items with
  | nil => exact hx
  | cons a rest ih =>
    rw [eraseFirst] at hx
    split at hx
    · exact List.mem_cons_of_mem _ hx
    · rcases List.mem_cons.mp hx with rfl | hx
      · exact List.mem_cons_self
      · exact List.mem_cons_of_mem _ (ih hx)

theorem adds_append (h : Heap) (c : Nat) (items : List Value) :
    h.Adds (h.setList c (h.lists.get c ++ items)) (.collection c) items :=
  adds_setList h c fun _ hx => List.mem_append.mp hx

theorem adds_eraseFirst (h : Heap) (c : Nat) (v : Value) :
    h.Adds (h.setList c (h.eraseFirst v (h.lists.get c))) (.collection c) [] :=
  adds_setList h c fun _ hx => Or.inl (mem_of_mem_eraseFirst hx)

theorem adds_setDict (h : Heap) (c : Nat) {d : Dict Value}
    (hd : ∀ x ∈ d.entries.map (·.2), x ∈ h.elements (.dictionary c) ∨ x ∈ added) :
    h.Adds (h.setDict c d) (.dictionary c) added := by
  constructor
  · intro v hv
    cases v with
    | dictionary i => simpa [Live, setDict] using hv
    | _ => exact hv
  · intro v hv x hx
    cases v with
    | dictionary i =>
      rcases mem_get_set hv (fun d => d.entries.map (·.2)) hx with ⟨rfl, hwritten⟩ | hold
      · exact (hd x hwritten).imp_right fun hnew => ⟨rfl, hnew⟩
      · exact Or.inl hold
    | _ => exact Or.inl hx

theorem adds_setGroups (h : Heap) (c : Nat) {d : Dict (List Value)}
    (hd : ∀ x ∈ d.entries.flatMap (·.2), x ∈ h.elements (.groups c) ∨ x ∈ added) :
    h.Adds (h.setGroups c d) (.groups c) added := by
  constructor
  · intro v hv
    cases v with
    | groups i => simpa [Live, setGroups] using hv
    | _ => exact hv
  · intro v hv x hx
    cases v with
    | groups i =>
      rcases mem_get_set hv (fun d => d.entries.flatMap (·.2)) hx with ⟨rfl, hwritten⟩ | hold
      · exact (hd x hwritten).imp_right fun hnew => ⟨rfl, hnew⟩
      · exact Or.inl hold
    | _ => exact Or.inl hx

/-! ### New cells -/

theorem keeps_newList (h : Heap) (items : List Value) : h.Keeps (h.newList items).2 := by
  constructor
  · intro v hv
    cases v with
    | collection i => exact Nat.lt_of_lt_of_eq (Nat.lt_succ_of_lt hv) (Pool.size_alloc _ _).symm
    | _ => exact hv
  · intro v hv x hx
    cases v with
    | collection i =>
      have hx' : x ∈ (h.lists.alloc items).2.get i := hx
      rw [Pool.get_alloc_of_lt hv] at hx'
      exact Or.inl hx'
    | _ => exact Or.inl hx

theorem keeps_newDict (h : Heap) (d : Dict Value) : h.Keeps (h.newDict d).2 := by
  constructor
  · intro v hv
    cases v with
    | dictionary i => exact Nat.lt_of_lt_of_eq (Nat.lt_succ_of_lt hv) (Pool.size_alloc _ _).symm
    | _ => exact hv
  · intro v hv x hx
    cases v with
    | dictionary i =>
      have hx' : x ∈ ((h.dicts.alloc d).2.get i).entries.map (·.2) := hx
      rw [Pool.get_alloc_of_lt hv] at hx'
      exact Or.inl hx'
    | _ => exact Or.inl hx

theorem keeps_newGroups (h : Heap) (d : Dict (List Value)) : h.Keeps (h.newGroups d).2 := by
  constructor
  · intro v hv
    cases v with
    | groups i => exact Nat.lt_of_lt_of_eq (Nat.lt_succ_of_lt hv) (Pool.size_alloc _ _).symm
    | _ => exact hv
  · intro v hv x hx
    cases v with
    | groups i =>
      have hx' : x ∈ ((h.groups.alloc d).2.get i).entries.flatMap (·.2) := hx
      rw [Pool.get_alloc_of_lt hv] at hx'
      exact Or.inl hx'
    | _ => exact Or.inl hx

theorem live_newList (h : Heap) (items : List Value) :
    (h.newList items).2.Live (h.newList items).1 :=
  Nat.lt_of_lt_of_eq (Nat.lt_succ_self _) (Pool.size_alloc _ _).symm

theorem elements_newList (h : Heap) (items : List Value) :
    (h.newList items).2.elements (h.newList items).1 = items := Pool.get_alloc_self _ _

theorem keeps_initial (h : Heap) (type : Ty) : h.Keeps (h.initial type).2 := by
  unfold initial
  split
  · exact keeps_newGroups h _
  · split
    · exact keeps_newDict h _
    · split
      · exact keeps_newList h _
      · split
        · exact Keeps.refl h
        · split
          · exact Keeps.refl h
          · split <;> exact Keeps.refl h

/-! ### Plain values -/

/-- Whether a plain value equals another one does not depend on any cell. -/
theorem same_of_plain (hv : v.shape = 0) (h h' : Heap) (w : Value) : h.same v w = h'.same v w := by
  unfold same
  cases v with
  | collection c => cases hv
  | dictionary c => cases hv
  | groups c => cases hv
  | _ => cases w <;> simp [sameWithin]

/-- The text of a plain value does not depend on any cell. -/
theorem render_of_plain (hv : v.shape = 0) (h h' : Heap) : h.render v = h'.render v := by
  unfold render
  cases v with
  | collection c => cases hv
  | dictionary c => cases hv
  | groups c => cases hv
  | _ => simp [showWithin]

/-- What is removed from a sequence of plain values does not depend on any cell. -/
theorem eraseFirst_of_plain {items : List Value} (hitems : ∀ x ∈ items, x.shape = 0) (h h' : Heap)
    (v : Value) : h.eraseFirst v items = h'.eraseFirst v items := by
  induction items with
  | nil => rfl
  | cons x rest ih =>
    have hrest := ih fun y hy => hitems y (List.mem_cons_of_mem _ hy)
    rw [eraseFirst, eraseFirst, hrest, same_of_plain (hitems x List.mem_cons_self) h h' v]

end Heap

end WorldScript
