import WorldScript.Proofs.Expr.Sound
import WorldScript.Proofs.Run.Frames

/-! # What statements store in cells

A few statements put elements into the cell of a variable's value: those that add or set an item,
and compound assignments to a collection. `Stores` tells the cell, the elements, and the expression
that they come from. All other changes only take elements away, or put a new cell in the place of
the old one.

* `Machine.applyChange_adds`: what a change does to the cells. -/

namespace WorldScript

namespace Dict

variable {α : Type}

theorem mem_insert {d : Dict α} {key : String} {a : α} {e : String × α}
    (h : e ∈ (d.insert key a).entries) : e = (key, a) ∨ e ∈ d.entries := by
  obtain ⟨entries⟩ := d
  simp only [insert] at h ⊢
  induction entries with
  | nil =>
    rw [insertEntry, List.mem_singleton] at h
    exact Or.inl h
  | cons first rest ih =>
    obtain ⟨k, v⟩ := first
    rw [insertEntry] at h
    split at h
    · rcases List.mem_cons.mp h with h | h
      · exact Or.inl h
      · exact Or.inr h
    · split at h
      · rcases List.mem_cons.mp h with h | h
        · exact Or.inl h
        · exact Or.inr (List.mem_cons_of_mem _ h)
      · rcases List.mem_cons.mp h with h | h
        · exact Or.inr (h ▸ List.mem_cons_self)
        · exact (ih h).imp_right (List.mem_cons_of_mem _)

theorem mem_erase {d : Dict α} {key : String} {e : String × α} (h : e ∈ (d.erase key).entries) :
    e ∈ d.entries := (List.mem_filter.mp h).1

end Dict

namespace Change

/-- The expression whose value, or whose elements, a change puts into the cell of its target. -/
def stored? : Change → Option Checked
  | add e | addKeyed _ e | addRange e | set _ e => some e
  | _ => none

/-- The elements that a change puts into the cell of its target, given the values of its
expressions. -/
def added (h : Heap) : Change → List Value → List Value
  | add _, [v] => [v]
  | addKeyed _ _, [_, v] => [v]
  | addRange _, [v] => h.elements v
  | set _ _, [_, v] => [v]
  | _, _ => []

end Change

/-- The items of a collection, or the value alone. -/
def Heap.spread (h : Heap) : Value → List Value
  | .collection c => h.lists.get c
  | v => [v]

theorem Heap.spread_of_ne {h : Heap} {v : Value} (hne : ∀ c, v = .collection c → False) :
    h.spread v = [v] := by
  unfold spread
  split
  · exact absurd rfl (hne _)
  · rfl

/-- In this state the statement puts elements into the cell of a value. They come from the value of
the expression. -/
inductive Machine.Stores (m : Machine) : Statement → Checked → Value → List Value → Prop
  | change {line : Nat} {name : String} {c : Change} {e : Checked} {target : Value}
    {vs : List Value} {m' : Machine} :
    c.stored? = some e → m.values c.expressions = (.ok vs, m') →
    m'.vars.value? name = some target →
    Stores m (.change line name c) e target (c.added m'.world.heap vs)
  | compound {line : Nat} {name : String} {e : Checked} {cell : Nat} {v : Value} {m' : Machine} :
    m.eval e = (.ok v, m') → m'.vars.value? name = some (.collection cell) →
    Stores m (.compound line name .add e) e (.collection cell) (m'.world.heap.spread v)

namespace Machine

variable {m : Machine} {line : Nat} {name : String}

/-- A change puts its elements into the cell of the target and takes others away, or gives the
variable a new cell with some of the old elements, or fails. -/
theorem applyChange_adds {P : Ending → Prop} {c : Change} {target : Value} {values : List Value}
    (hdone : ∀ h, m.world.heap.Adds h target (c.added m.world.heap values) → P (m.withHeap h).done)
    (hstore : ∀ cell i, target = .collection cell →
      P ((m.withHeap (m.world.heap.newList ((m.world.heap.lists.get cell).eraseIdx i)).2).store line
        name (m.world.heap.newList ((m.world.heap.lists.get cell).eraseIdx i)).1))
    (hfail : ∀ fault, P (m.fail line fault)) : P (m.applyChange line name c target values) := by
  unfold applyChange
  split
  · exact hdone _ (Heap.adds_append _ _ _)
  · -- addKeyed
    refine require_cases (fun key _ => hdone _ (Heap.adds_setGroups _ _ ?_)) fun fault _ => hfail fault
    intro x hx
    obtain ⟨e, he, hxe⟩ := List.mem_flatMap.mp hx
    rcases Dict.mem_insert he with rfl | hold
    · rcases List.mem_append.mp hxe with hxe | hxe
      · exact Or.inl (Dict.mem_of_mem_group hxe)
      · exact Or.inr hxe
    · exact Or.inl (List.mem_flatMap.mpr ⟨e, hold, hxe⟩)
  · exact hdone _ (Heap.adds_append _ _ _)
  · exact hfail _
  · exact hdone _ (Heap.adds_eraseFirst _ _ _)
  · -- removeAt
    exact require_cases (fun i _ => hstore _ i rfl) fun fault _ => hfail fault
  · exact hdone _ (Heap.adds_setList _ _ fun x hx => by cases hx)
  · exact hdone _ (Heap.adds_setDict _ _ fun x hx => by cases hx)
  · exact hdone _ (Heap.adds_setGroups _ _ fun x hx => by cases hx)
  · -- set in a dictionary
    refine require_cases (fun key _ => hdone _ (Heap.adds_setDict _ _ ?_)) fun fault _ => hfail fault
    intro x hx
    obtain ⟨e, he, rfl⟩ := List.mem_map.mp hx
    rcases Dict.mem_insert he with rfl | hold
    · exact Or.inr List.mem_cons_self
    · exact Or.inl (List.mem_map_of_mem hold)
  · -- set in a collection
    refine require_cases (fun place _ => hdone _ (Heap.adds_setList _ _ ?_)) fun fault _ => hfail fault
    intro x hx
    rcases List.mem_or_eq_of_mem_set hx with hold | rfl
    · exact Or.inl hold
    · exact Or.inr List.mem_cons_self
  · -- removeKey
    refine require_cases (fun key _ => hdone _ (Heap.adds_setDict _ _ ?_)) fun fault _ => hfail fault
    intro x hx
    obtain ⟨e, he, rfl⟩ := List.mem_map.mp hx
    exact Or.inl (List.mem_map_of_mem (Dict.mem_erase he))
  · refine require_cases (fun key _ => hdone _ (Heap.adds_setGroups _ _ ?_)) fun fault _ => hfail fault
    intro x hx
    obtain ⟨e, he, hxe⟩ := List.mem_flatMap.mp hx
    exact Or.inl (List.mem_flatMap.mpr ⟨e, Dict.mem_erase he, hxe⟩)
  · exact hfail _

end Machine

end WorldScript
