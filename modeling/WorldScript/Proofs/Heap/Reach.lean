import WorldScript.Proofs.Heap.Pairing

/-! # What can be reached

A value is reached from some roots if it is one of them, or an element of one that is reached. Two
heaps *agree* on some roots if every cell that is reached from them exists in both and holds the
same. The rest of the two heaps may be different in any way, and so may be the addresses of the
cells that are still to come.

Then the cells can be paired so that the heaps are alike: those that are reached, with themselves,
and those that are still to come, in the order in which they come.

* `Heap.Reaches`, `Heap.AgreeOn`.
* `Pairing.upToNew`, `Heap.AgreeOn.alike`: the pairing.
* `Heap.Alike.frame_left`, `Heap.Alike.frame_right`: cells that are not reached stay as they are. -/

namespace WorldScript

namespace Heap

/-- The value is one of the roots, or an element of a value that is reached. -/
inductive Reaches (h : Heap) (roots : List Value) : Value → Prop
  | root {v : Value} : v ∈ roots → Reaches h roots v
  | element {v x : Value} : Reaches h roots v → x ∈ h.elements v → Reaches h roots x

/-- The cell of the value, if it has one, holds the same in both heaps. -/
def SameCell (h h' : Heap) : Value → Prop
  | .collection c => h'.lists.get c = h.lists.get c
  | .dictionary c => h'.dicts.get c = h.dicts.get c
  | .groups c => h'.groups.get c = h.groups.get c
  | _ => True

/-- All that is reached exists in both heaps, and holds the same in both. -/
def AgreeOn (h h' : Heap) (roots : List Value) : Prop :=
  ∀ v, h.Reaches roots v → h.Live v ∧ h'.Live v ∧ h.SameCell h' v

variable {h h' h'' : Heap} {roots : List Value} {v : Value}

theorem SameCell.refl (h : Heap) (v : Value) : h.SameCell h v := by
  cases v <;> simp only [SameCell]

theorem SameCell.trans (h₁ : h.SameCell h' v) (h₂ : h'.SameCell h'' v) : h.SameCell h'' v := by
  cases v with
  | collection c => exact Eq.trans h₂ h₁
  | dictionary c => exact Eq.trans h₂ h₁
  | groups c => exact Eq.trans h₂ h₁
  | _ => trivial

theorem SameCell.elements (hv : h.SameCell h' v) : h'.elements v = h.elements v := by
  cases v with
  | collection c => exact hv
  | dictionary c => exact congrArg (fun d : Dict Value => d.entries.map (·.2)) hv
  | groups c => exact congrArg (fun d : Dict (List Value) => d.entries.flatMap (·.2)) hv
  | _ => rfl

namespace AgreeOn

/-- In heaps that agree, the same is reached. -/
theorem reaches_iff (hagree : h.AgreeOn h' roots) :
    h'.Reaches roots v ↔ h.Reaches roots v := by
  constructor
  · intro hv
    induction hv with
    | root hroot => exact .root hroot
    | element _ hx ih =>
      rw [(hagree _ ih).2.2.elements] at hx
      exact .element ih hx
  · intro hv
    induction hv with
    | root hroot => exact .root hroot
    | element hv hx ih =>
      rw [← (hagree _ hv).2.2.elements] at hx
      exact .element ih hx

theorem trans (h₁ : h.AgreeOn h' roots) (h₂ : h'.AgreeOn h'' roots) : h.AgreeOn h'' roots := by
  intro v hv
  obtain ⟨hlive, -, hsame⟩ := h₁ v hv
  obtain ⟨-, hlive', hsame'⟩ := h₂ v (h₁.reaches_iff.mpr hv)
  exact ⟨hlive, hlive', hsame.trans hsame'⟩

/-- A heap agrees with itself on what exists. -/
theorem right (hagree : h.AgreeOn h' roots) : h'.AgreeOn h' roots := by
  intro v hv
  have hlive := (hagree v (hagree.reaches_iff.mp hv)).2.1
  exact ⟨hlive, hlive, .refl h' v⟩

end AgreeOn

end Heap

/-! ### The pairing -/

/-- The shared addresses below both bounds, with themselves, and those from the bounds on, one after
the other. -/
inductive UpToNew (shared : Nat → Prop) (n n' : Nat) : Nat → Nat → Prop
  | old {i : Nat} : shared i → i < n → i < n' → UpToNew shared n n' i i
  | new (k : Nat) : UpToNew shared n n' (n + k) (n' + k)

theorem upToNew_iff {shared : Nat → Prop} {n n' i j : Nat} : UpToNew shared n n' i j ↔
    (i = j ∧ shared i ∧ i < n ∧ i < n') ∨ ∃ k, i = n + k ∧ j = n' + k := by
  constructor
  · intro hij
    cases hij with
    | old hs hi hi' => exact Or.inl ⟨rfl, hs, hi, hi'⟩
    | new k => exact Or.inr ⟨k, rfl, rfl⟩
  · rintro (⟨rfl, hs, hi, hi'⟩ | ⟨k, rfl, rfl⟩)
    · exact .old hs hi hi'
    · exact .new k

theorem biUnique_upToNew (shared : Nat → Prop) (n n' : Nat) :
    Relator.BiUnique (UpToNew shared n n') := by
  constructor
  · intro i j k hik hjk
    rcases upToNew_iff.mp hik with ⟨hi, -, hlt⟩ | ⟨a, hi⟩ <;>
      rcases upToNew_iff.mp hjk with ⟨hj, -, hlt'⟩ | ⟨b, hj⟩ <;> omega
  · intro i j k hij hik
    rcases upToNew_iff.mp hij with ⟨hj, -, hlt⟩ | ⟨a, hj⟩ <;>
      rcases upToNew_iff.mp hik with ⟨hk, -, hlt'⟩ | ⟨b, hk⟩ <;> omega

/-- A cell that is reached in the first heap is paired with itself, and the next cells of the one
heap with the next cells of the other, in the order in which they will come. -/
def Pairing.upToNew (h h' : Heap) (roots : List Value) : Pairing where
  lists := UpToNew (fun i => h.Reaches roots (.collection i)) h.lists.size h'.lists.size
  dicts := UpToNew (fun i => h.Reaches roots (.dictionary i)) h.dicts.size h'.dicts.size
  groups := UpToNew (fun i => h.Reaches roots (.groups i)) h.groups.size h'.groups.size
  lists_unique := biUnique_upToNew _ _ _
  dicts_unique := biUnique_upToNew _ _ _
  groups_unique := biUnique_upToNew _ _ _

namespace Pool

variable {α : Type} [Inhabited α] {shared : Nat → Prop} {R : α → α → Prop}
  {left right p p' : Pool α} {n n' : Nat}

theorem alike_upToNew (hget : ∀ i, shared i → R (p.get i) (p'.get i)) :
    Alike (UpToNew shared p.size p'.size) R p p' p p' := by
  constructor
  · intro i j hij hlt
    cases hij with
    | old hs _ _ => exact hget i hs
    | new k => omega
  · intro i j hij
    cases hij with
    | old _ hi hi' => exact iff_of_true hi hi'
    | new k => omega
  · exact fun n => .new n
  · exact fun _ => rfl
  · exact fun _ => rfl

theorem Alike.frame_left (hp : Alike (UpToNew shared n n') R left right p p') {i : Nat}
    (hi : i < n) (hshared : ¬ shared i) : p.get i = left.get i := by
  refine hp.left fun j hij => ?_
  cases hij with
  | old hs _ _ => exact hshared hs
  | new k => omega

theorem Alike.frame_right (hp : Alike (UpToNew shared n n') R left right p p') {j : Nat}
    (hj : j < n') (hshared : ¬ shared j) : p'.get j = right.get j := by
  refine hp.right fun i hij => ?_
  cases hij with
  | old hs _ _ => exact hshared hs
  | new k => omega

end Pool

namespace Heap

variable {h h' h₁ h₁' : Heap} {roots : List Value} {v v' : Value}

theorem AgreeOn.at (hagree : h.AgreeOn h' roots) (hv : h.Reaches roots v) :
    (Pairing.upToNew h h' roots).At h v v := by
  obtain ⟨hlive, hlive', -⟩ := hagree v hv
  refine ⟨?_, hlive⟩
  cases v with
  | collection c => exact .collection (.old hv hlive hlive')
  | dictionary c => exact .dictionary (.old hv hlive hlive')
  | groups c => exact .groups (.old hv hlive hlive')
  | _ => exact .plain rfl

/-- Heaps that agree on the roots are alike. -/
theorem AgreeOn.alike (hagree : h.AgreeOn h' roots) :
    Heap.Alike (.upToNew h h' roots) h h' h h' := by
  refine ⟨Pool.alike_upToNew ?_, Pool.alike_upToNew ?_, Pool.alike_upToNew ?_⟩
  · intro c hc
    rw [show h'.lists.get c = h.lists.get c from (hagree _ hc).2.2]
    exact List.forall₂_same.mpr fun x hx => hagree.at (.element hc hx)
  · intro c hc
    rw [show h'.dicts.get c = h.dicts.get c from (hagree _ hc).2.2]
    exact Dict.alike_self fun e he => hagree.at (.element hc (List.mem_map_of_mem he))
  · intro c hc
    rw [show h'.groups.get c = h.groups.get c from (hagree _ hc).2.2]
    refine Dict.alike_self fun e he => List.forall₂_same.mpr fun x hx => ?_
    exact hagree.at (.element hc (List.mem_flatMap.mpr ⟨e, he, hx⟩))

/-! ### Cells without a partner -/

/-- A cell of the first heap that is not reached is as it was. -/
theorem Alike.frame_left (hh : Alike (.upToNew h h' roots) h h' h₁ h₁') (hlive : h.Live v)
    (hv : ¬ h.Reaches roots v) : h.SameCell h₁ v := by
  cases v with
  | collection c => exact hh.lists.frame_left hlive hv
  | dictionary c => exact hh.dicts.frame_left hlive hv
  | groups c => exact hh.groups.frame_left hlive hv
  | _ => trivial

/-- A cell of the second heap that is not reached is as it was. -/
theorem Alike.frame_right (hh : Alike (.upToNew h h' roots) h h' h₁ h₁') (hlive : h'.Live v)
    (hv : ¬ h.Reaches roots v) : h'.SameCell h₁' v := by
  cases v with
  | collection c => exact hh.lists.frame_right hlive hv
  | dictionary c => exact hh.dicts.frame_right hlive hv
  | groups c => exact hh.groups.frame_right hlive hv
  | _ => trivial

end Heap

/-! ### What paired cells hold -/

/-- The contents of two cells are joined, one by one and under the same keys. -/
inductive Pairing.Hold (p : Pairing) (h h' : Heap) : Value → Value → Prop
  | plain {v : Value} : v.shape = 0 → Hold p h h' v v
  | collection {c c' : Nat} : List.Forall₂ p.Joins (h.lists.get c) (h'.lists.get c') →
    Hold p h h' (.collection c) (.collection c')
  | dictionary {c c' : Nat} : Dict.Alike p.Joins (h.dicts.get c) (h'.dicts.get c') →
    Hold p h h' (.dictionary c) (.dictionary c')
  | groups {c c' : Nat} :
    Dict.Alike (List.Forall₂ p.Joins) (h.groups.get c) (h'.groups.get c') →
    Hold p h h' (.groups c) (.groups c')

theorem Heap.Alike.hold {p : Pairing} {left right h h' : Heap} {v v' : Value}
    (hh : Heap.Alike p left right h h') (hv : p.At h v v') : p.Hold h h' v v' := by
  cases hv.1 with
  | plain hplain => exact .plain hplain
  | collection _ => exact .collection ((hh.list hv).imp fun _ _ hx => hx.1)
  | dictionary _ => exact .dictionary ((hh.dict hv).imp fun _ _ hx => hx.1)
  | groups _ => exact .groups ((hh.group hv).imp fun _ _ hl => hl.imp fun _ _ hx => hx.1)

/-- Of two joined values, both exist or none. -/
theorem Heap.Alike.live_iff {p : Pairing} {left right h h' : Heap} {v v' : Value}
    (hh : Heap.Alike p left right h h') (hv : p.Joins v v') : h.Live v ↔ h'.Live v' := by
  cases hv with
  | plain hplain => exact iff_of_true (live_of_plain hplain) (live_of_plain hplain)
  | collection hc => exact hh.lists.lt hc
  | dictionary hc => exact hh.dicts.lt hc
  | groups hc => exact hh.groups.lt hc

end WorldScript
