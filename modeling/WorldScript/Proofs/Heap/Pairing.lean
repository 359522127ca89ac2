import Mathlib.Logic.Relator
import WorldScript.Proofs.Heap.Depth
import WorldScript.Proofs.Space.Alike

/-! # Heaps whose cells are paired

The cells of two heaps are *paired*: some cells of the one correspond, one to one, to cells of the
other. Values are joined if they are the same plain value, or structural values whose cells are
paired. Two heaps are *alike* if paired cells hold joined values, and if all cells that are still to
come are paired in the order in which they come.

Being alike is kept by writes to paired cells and by new cells, as long as what is written is
joined. Cells without a partner are not touched by this. What can be told of values, their text and
whether they are equal, is the same for joined ones.

* `Pairing`, `Pairing.Joins`, `Heap.Alike`.
* `Heap.Alike.setList` and the like, `Heap.Alike.newList` and the like: the writes and new cells.
* `Heap.Alike.same`, `Heap.Alike.render`: equality and texts. -/

namespace WorldScript

/-- Cells of one heap that correspond, one to one, to cells of another. -/
structure Pairing where
  lists : Nat → Nat → Prop
  dicts : Nat → Nat → Prop
  groups : Nat → Nat → Prop
  lists_unique : Relator.BiUnique lists
  dicts_unique : Relator.BiUnique dicts
  groups_unique : Relator.BiUnique groups

namespace Pairing

/-- The same plain value, or structural values whose cells are paired. -/
inductive Joins (p : Pairing) : Value → Value → Prop
  | plain {v : Value} : v.shape = 0 → Joins p v v
  | collection {i j : Nat} : p.lists i j → Joins p (.collection i) (.collection j)
  | dictionary {i j : Nat} : p.dicts i j → Joins p (.dictionary i) (.dictionary j)
  | groups {i j : Nat} : p.groups i j → Joins p (.groups i) (.groups j)

/-- The values are joined, and the first one exists. -/
def At (p : Pairing) (h : Heap) (v v' : Value) : Prop := p.Joins v v' ∧ h.Live v

variable {p : Pairing} {h h₁ : Heap} {v v' : Value}

theorem At.of_plain (hv : v.shape = 0) : p.At h v v := ⟨.plain hv, Heap.live_of_plain hv⟩

namespace Joins

theorem shape (hv : p.Joins v v') : v'.shape = v.shape := by
  cases hv <;> rfl

theorem eq_of_plain (hv : p.Joins v v') (hplain : v.shape = 0) : v' = v := by
  cases hv with
  | plain _ => rfl
  | _ => cases hplain

theorem exists_collection {c : Nat} (hv : p.Joins (.collection c) v') :
    ∃ c', v' = .collection c' ∧ p.lists c c' := by
  cases hv with
  | plain hplain => cases hplain
  | collection hc => exact ⟨_, rfl, hc⟩

theorem exists_dictionary {c : Nat} (hv : p.Joins (.dictionary c) v') :
    ∃ c', v' = .dictionary c' ∧ p.dicts c c' := by
  cases hv with
  | plain hplain => cases hplain
  | dictionary hc => exact ⟨_, rfl, hc⟩

theorem exists_groups {c : Nat} (hv : p.Joins (.groups c) v') :
    ∃ c', v' = .groups c' ∧ p.groups c c' := by
  cases hv with
  | plain hplain => cases hplain
  | groups hc => exact ⟨_, rfl, hc⟩

theorem type (hv : p.Joins v v') : v'.type = v.type := by
  cases hv <;> rfl

theorem number? (hv : p.Joins v v') : v'.number? = v.number? := by
  cases hv <;> rfl

theorem text? (hv : p.Joins v v') : v'.text? = v.text? := by
  cases hv <;> rfl

theorem boolean? (hv : p.Joins v v') : v'.boolean? = v.boolean? := by
  cases hv <;> rfl

theorem isNull (hv : p.Joins v v') : v'.isNull = v.isNull := by
  cases hv <;> rfl

end Joins

end Pairing

/-! ### Pools -/

namespace Pool

variable {α : Type} [Inhabited α] {β : Nat → Nat → Prop} {R S : α → α → Prop}
  {left right p p' : Pool α} {a a' : α} {c c' : Nat}

/-- Paired cells hold related contents, and so do all cells that are still to come, which are paired
in their order. Cells without a partner hold what they held in the beginning. -/
structure Alike (β : Nat → Nat → Prop) (R : α → α → Prop) (left right p p' : Pool α) : Prop where
  get : ∀ {i j}, β i j → i < p.size → R (p.get i) (p'.get j)
  lt : ∀ {i j}, β i j → (i < p.size ↔ j < p'.size)
  fresh : ∀ n, β (p.size + n) (p'.size + n)
  left : ∀ {i}, (∀ j, ¬ β i j) → p.get i = left.get i
  right : ∀ {j}, (∀ i, ¬ β i j) → p'.get j = right.get j

namespace Alike

theorem imp (h : Alike β R left right p p') (hRS : ∀ a a', R a a' → S a a') :
    Alike β S left right p p' :=
  ⟨fun hij hi => hRS _ _ (h.get hij hi), h.lt, h.fresh, h.left, h.right⟩

theorem set (h : Alike β R left right p p') (hβ : Relator.BiUnique β) (hc : β c c')
    (ha : R a a') : Alike β R left right (p.set c a) (p'.set c' a') := by
  constructor
  · intro i j hij hi
    rw [size_set] at hi
    by_cases hic : i = c
    · have hjc : j = c' := (Relator.rel_eq hβ hij hc).mp hic
      subst hic hjc
      rw [get_set_self hi, get_set_self ((h.lt hij).mp hi)]
      exact ha
    · have hjc : j ≠ c' := fun hj => hic ((Relator.rel_eq hβ hij hc).mpr hj)
      rw [get_set_of_ne p hic, get_set_of_ne p' hjc]
      exact h.get hij hi
  · intro i j hij
    rw [size_set, size_set]
    exact h.lt hij
  · intro n
    rw [size_set, size_set]
    exact h.fresh n
  · intro i hi
    have hic : i ≠ c := fun heq => hi c' (heq ▸ hc)
    rw [get_set_of_ne p hic]
    exact h.left hi
  · intro j hj
    have hjc : j ≠ c' := fun heq => hj c (heq ▸ hc)
    rw [get_set_of_ne p' hjc]
    exact h.right hj

/-- Paired addresses are the new one on both sides, or on none, or dead on both. -/
theorem alloc (h : Alike β R left right p p') (hβ : Relator.BiUnique β) (ha : R a a') :
    Alike β R left right (p.alloc a).2 (p'.alloc a').2 := by
  have hnew : β p.size p'.size := h.fresh 0
  -- A cell without a partner is below the new one, since all others have a partner.
  have hlow : ∀ {i}, (∀ j, ¬ β i j) → i < p.size := by
    intro i hi
    refine Nat.lt_of_not_le fun hle => ?_
    obtain ⟨n, rfl⟩ := Nat.exists_eq_add_of_le hle
    exact hi _ (h.fresh n)
  have hlow' : ∀ {j}, (∀ i, ¬ β i j) → j < p'.size := by
    intro j hj
    refine Nat.lt_of_not_le fun hle => ?_
    obtain ⟨n, rfl⟩ := Nat.exists_eq_add_of_le hle
    exact hj _ (h.fresh n)
  constructor
  · intro i j hij hi
    rw [size_alloc] at hi
    by_cases hip : i = p.size
    · have hjp : j = p'.size := (Relator.rel_eq hβ hij hnew).mp hip
      subst hip hjp
      have hself := get_alloc_self p a
      have hself' := get_alloc_self p' a'
      rw [show (p.alloc a).1 = p.size from rfl] at hself
      rw [show (p'.alloc a').1 = p'.size from rfl] at hself'
      rw [hself, hself']
      exact ha
    · have hlt : i < p.size := by omega
      rw [get_alloc_of_lt hlt, get_alloc_of_lt ((h.lt hij).mp hlt)]
      exact h.get hij hlt
  · intro i j hij
    have hlt := h.lt hij
    have heq := Relator.rel_eq hβ hij hnew
    rw [size_alloc, size_alloc]
    omega
  · intro n
    rw [size_alloc, size_alloc, Nat.add_assoc, Nat.add_assoc]
    exact h.fresh (1 + n)
  · intro i hi
    rw [get_alloc_of_lt (hlow hi)]
    exact h.left hi
  · intro j hj
    rw [get_alloc_of_lt (hlow' hj)]
    exact h.right hj

end Alike

end Pool

/-! ### Heaps -/

namespace Heap

/-- What exists in the first heap exists in the second one. -/
def Grows (h h' : Heap) : Prop := ∀ v, h.Live v → h'.Live v

theorem Grows.refl (h : Heap) : h.Grows h := fun _ hv => hv

theorem Grows.trans {h h' h'' : Heap} (h₁ : h.Grows h') (h₂ : h'.Grows h'') : h.Grows h'' :=
  fun v hv => h₂ v (h₁ v hv)

theorem Keeps.grows {h h' : Heap} (hkeeps : h.Keeps h') : h.Grows h' := fun _ hv => hkeeps.live hv

theorem Adds.grows {h h' : Heap} {target : Value} {added : List Value}
    (hadds : h.Adds h' target added) : h.Grows h' := fun _ hv => hadds.live hv

theorem grows_setList (h : Heap) (c : Nat) (items : List Value) : h.Grows (h.setList c items) :=
  (adds_setList h c fun _ hx => Or.inr hx).grows

theorem grows_setDict (h : Heap) (c : Nat) (d : Dict Value) : h.Grows (h.setDict c d) :=
  (adds_setDict h c fun _ hx => Or.inr hx).grows

theorem grows_setGroups (h : Heap) (c : Nat) (d : Dict (List Value)) :
    h.Grows (h.setGroups c d) := (adds_setGroups h c fun _ hx => Or.inr hx).grows

end Heap

theorem Pairing.At.mono {p : Pairing} {h h₁ : Heap} {v v' : Value} (hv : p.At h v v')
    (hgrows : h.Grows h₁) : p.At h₁ v v' := ⟨hv.1, hgrows v hv.2⟩

namespace Heap

variable {p : Pairing} {left right h h' h₁ : Heap} {v v' a a' b b' : Value} {c c' : Nat}

/-- The cells of all three pools are alike. -/
structure Alike (p : Pairing) (left right h h' : Heap) : Prop where
  lists : Pool.Alike p.lists (List.Forall₂ (p.At h)) left.lists right.lists h.lists h'.lists
  dicts : Pool.Alike p.dicts (Dict.Alike (p.At h)) left.dicts right.dicts h.dicts h'.dicts
  groups : Pool.Alike p.groups (Dict.Alike (List.Forall₂ (p.At h))) left.groups right.groups
    h.groups h'.groups

namespace Alike

variable (hh : Alike p left right h h')

include hh

/-! ### What is read -/

theorem list (hc : p.At h (.collection c) (.collection c')) :
    List.Forall₂ (p.At h) (h.lists.get c) (h'.lists.get c') := by
  obtain ⟨_, ⟨⟩, hpaired⟩ := hc.1.exists_collection
  exact hh.lists.get hpaired hc.2

theorem dict (hc : p.At h (.dictionary c) (.dictionary c')) :
    Dict.Alike (p.At h) (h.dicts.get c) (h'.dicts.get c') := by
  obtain ⟨_, ⟨⟩, hpaired⟩ := hc.1.exists_dictionary
  exact hh.dicts.get hpaired hc.2

theorem group (hc : p.At h (.groups c) (.groups c')) :
    Dict.Alike (List.Forall₂ (p.At h)) (h.groups.get c) (h'.groups.get c') := by
  obtain ⟨_, ⟨⟩, hpaired⟩ := hc.1.exists_groups
  exact hh.groups.get hpaired hc.2

/-! ### Writes -/

theorem setList (hc : p.At h (.collection c) (.collection c')) {items items' : List Value}
    (hitems : List.Forall₂ (p.At h) items items') :
    Alike p left right (h.setList c items) (h'.setList c' items') := by
  obtain ⟨_, ⟨⟩, hpaired⟩ := hc.1.exists_collection
  have hgrows : ∀ v v', p.At h v v' → p.At (h.setList c items) v v' :=
    fun v v' hv => hv.mono (grows_setList h c items)
  exact ⟨(hh.lists.set p.lists_unique hpaired hitems).imp fun _ _ => .imp hgrows,
    hh.dicts.imp fun _ _ hd => hd.imp hgrows,
    hh.groups.imp fun _ _ hd => hd.imp fun _ _ => .imp hgrows⟩

theorem setDict (hc : p.At h (.dictionary c) (.dictionary c')) {d d' : Dict Value}
    (hd : Dict.Alike (p.At h) d d') : Alike p left right (h.setDict c d) (h'.setDict c' d') := by
  obtain ⟨_, ⟨⟩, hpaired⟩ := hc.1.exists_dictionary
  have hgrows : ∀ v v', p.At h v v' → p.At (h.setDict c d) v v' :=
    fun v v' hv => hv.mono (grows_setDict h c d)
  exact ⟨hh.lists.imp fun _ _ => .imp hgrows,
    (hh.dicts.set p.dicts_unique hpaired hd).imp fun _ _ hd => hd.imp hgrows,
    hh.groups.imp fun _ _ hd => hd.imp fun _ _ => .imp hgrows⟩

theorem setGroups (hc : p.At h (.groups c) (.groups c')) {d d' : Dict (List Value)}
    (hd : Dict.Alike (List.Forall₂ (p.At h)) d d') :
    Alike p left right (h.setGroups c d) (h'.setGroups c' d') := by
  obtain ⟨_, ⟨⟩, hpaired⟩ := hc.1.exists_groups
  have hgrows : ∀ v v', p.At h v v' → p.At (h.setGroups c d) v v' :=
    fun v v' hv => hv.mono (grows_setGroups h c d)
  exact ⟨hh.lists.imp fun _ _ => .imp hgrows,
    hh.dicts.imp fun _ _ hd => hd.imp hgrows,
    (hh.groups.set p.groups_unique hpaired hd).imp fun _ _ hd => hd.imp fun _ _ => .imp hgrows⟩

/-! ### New cells -/

theorem newList {items items' : List Value} (hitems : List.Forall₂ (p.At h) items items') :
    Alike p left right (h.newList items).2 (h'.newList items').2 ∧
      p.At (h.newList items).2 (h.newList items).1 (h'.newList items').1 := by
  have hgrows : ∀ v v', p.At h v v' → p.At (h.newList items).2 v v' :=
    fun v v' hv => hv.mono (keeps_newList h items).grows
  refine ⟨⟨(hh.lists.alloc p.lists_unique hitems).imp fun _ _ => .imp hgrows,
    hh.dicts.imp fun _ _ hd => hd.imp hgrows,
    hh.groups.imp fun _ _ hd => hd.imp fun _ _ => .imp hgrows⟩, ?_⟩
  exact ⟨.collection (hh.lists.fresh 0), live_newList h items⟩

theorem newDict {d d' : Dict Value} (hd : Dict.Alike (p.At h) d d') :
    Alike p left right (h.newDict d).2 (h'.newDict d').2 ∧
      p.At (h.newDict d).2 (h.newDict d).1 (h'.newDict d').1 := by
  have hgrows : ∀ v v', p.At h v v' → p.At (h.newDict d).2 v v' :=
    fun v v' hv => hv.mono (keeps_newDict h d).grows
  refine ⟨⟨hh.lists.imp fun _ _ => .imp hgrows,
    (hh.dicts.alloc p.dicts_unique hd).imp fun _ _ hd => hd.imp hgrows,
    hh.groups.imp fun _ _ hd => hd.imp fun _ _ => .imp hgrows⟩, ?_⟩
  exact ⟨.dictionary (hh.dicts.fresh 0),
    Nat.lt_of_lt_of_eq (Nat.lt_succ_self _) (Pool.size_alloc _ _).symm⟩

theorem newGroups {d d' : Dict (List Value)} (hd : Dict.Alike (List.Forall₂ (p.At h)) d d') :
    Alike p left right (h.newGroups d).2 (h'.newGroups d').2 ∧
      p.At (h.newGroups d).2 (h.newGroups d).1 (h'.newGroups d').1 := by
  have hgrows : ∀ v v', p.At h v v' → p.At (h.newGroups d).2 v v' :=
    fun v v' hv => hv.mono (keeps_newGroups h d).grows
  refine ⟨⟨hh.lists.imp fun _ _ => .imp hgrows,
    hh.dicts.imp fun _ _ hd => hd.imp hgrows,
    (hh.groups.alloc p.groups_unique hd).imp fun _ _ hd => hd.imp fun _ _ => .imp hgrows⟩, ?_⟩
  exact ⟨.groups (hh.groups.fresh 0),
    Nat.lt_of_lt_of_eq (Nat.lt_succ_self _) (Pool.size_alloc _ _).symm⟩

/-- The value that a variable of some type starts with. -/
theorem initial (type : Ty) :
    Alike p left right (h.initial type).2 (h'.initial type).2 ∧
      p.At (h.initial type).2 (h.initial type).1 (h'.initial type).1 := by
  unfold Heap.initial
  split
  · exact hh.newGroups Dict.alike_empty
  · split
    · exact hh.newDict Dict.alike_empty
    · split
      · exact hh.newList .nil
      · split
        · exact ⟨hh, .of_plain rfl⟩
        · split
          · exact ⟨hh, .of_plain rfl⟩
          · split <;> exact ⟨hh, .of_plain rfl⟩

end Alike

/-! ### Texts -/

theorem showAll_alike {α : Type} {R : α → α → Prop} {f f' : α → Option String} {l l' : List α}
    (hl : List.Forall₂ R l l') (hf : ∀ a a', R a a' → f' a' = f a) :
    showAll f' l' = showAll f l := by
  induction hl with
  | nil => rfl
  | cons ha _ ih => rw [showAll, showAll, hf _ _ ha, ih]

theorem showWithin_of_plain (hv : v.shape = 0) (h h' : Heap) (n : Nat) :
    h'.showWithin n v = h.showWithin n v := by
  cases v with
  | collection c => cases hv
  | dictionary c => cases hv
  | groups c => cases hv
  | _ => simp only [showWithin]

theorem Alike.showWithin (hh : Alike p left right h h') (hv : p.At h v v') (n : Nat) :
    h'.showWithin n v' = h.showWithin n v := by
  induction n generalizing v v' with
  | zero =>
    cases hv.1 with
    | plain hplain => exact showWithin_of_plain hplain h h' 0
    | _ => rfl
  | succ n ih =>
    cases hv.1 with
    | plain hplain => exact showWithin_of_plain hplain h h' (n + 1)
    | collection hc =>
      rw [Heap.showWithin, Heap.showWithin, showAll_alike (hh.list hv) fun _ _ => ih]
    | dictionary hc =>
      rw [Heap.showWithin, Heap.showWithin, showAll_alike (hh.dict hv)]
      rintro e e' ⟨hkey, hvalue⟩
      rw [hkey, ih hvalue]
    | groups hc =>
      rw [Heap.showWithin, Heap.showWithin, showAll_alike (hh.group hv)]
      rintro e e' ⟨hkey, hvalues⟩
      rw [hkey, showAll_alike hvalues fun _ _ => ih]

/-- Joined values have the same text. -/
theorem Alike.render (hh : Alike p left right h h') (hv : p.At h v v') :
    h'.render v' = h.render v := render_congr (hh.showWithin hv)

/-! ### Equality -/

/-- The two comparisons have the same result for related values. -/
def Respects {α : Type} (R : α → α → Prop) (f f' : α → α → Bool) : Prop :=
  ∀ a a' b b', R a a' → R b b' → f' a' b' = f a b

theorem Respects.sameItems {α : Type} {R : α → α → Prop} {f f' : α → α → Bool}
    (hf : Respects R f f') :
    Respects (List.Forall₂ R) (WorldScript.sameItems f) (WorldScript.sameItems f') := by
  intro l l' m m' hl hm
  induction hl generalizing m m' with
  | nil => cases hm <;> rfl
  | cons ha _ ih =>
    cases hm with
    | nil => rfl
    | cons hb hm =>
      rw [WorldScript.sameItems, WorldScript.sameItems, hf _ _ _ _ ha hb, ih _ _ hm]

theorem Respects.sameEntry {α : Type} {R : α → α → Prop} {f f' : α → α → Bool}
    (hf : Respects R f f') :
    Respects (EntryAlike R) (WorldScript.sameEntry f) (WorldScript.sameEntry f') := by
  intro x x' y y' hx hy
  rw [WorldScript.sameEntry, WorldScript.sameEntry, hx.1, hy.1, hf _ _ _ _ hx.2 hy.2]

theorem sameWithin_of_shape_ne (hab : a.shape ≠ b.shape) (h : Heap) (n : Nat) :
    h.sameWithin n a b = false := by
  cases a <;> cases b <;> first | exact absurd rfl hab | simp only [sameWithin]

theorem sameWithin_of_plain (ha : a.shape = 0) (h h' : Heap) (n : Nat) (b : Value) :
    h'.sameWithin n a b = h.sameWithin n a b := by
  cases a with
  | collection c => cases ha
  | dictionary c => cases ha
  | groups c => cases ha
  | _ => cases b <;> simp only [sameWithin]

theorem beq_of_unique {β : Nat → Nat → Prop} (hβ : Relator.BiUnique β) {i i' j j' : Nat}
    (hi : β i i') (hj : β j j') : (i' == j') = (i == j) := by
  rw [Bool.eq_iff_iff, beq_iff_eq, beq_iff_eq]
  exact (Relator.rel_eq hβ hi hj).symm

theorem Alike.sameWithin (hh : Alike p left right h h') (ha : p.At h a a') (hb : p.At h b b')
    (n : Nat) : h'.sameWithin n a' b' = h.sameWithin n a b := by
  induction n generalizing a a' b b' with
  | zero =>
    by_cases hshape : a.shape = b.shape
    · cases ha.1 with
      | plain hplain =>
        rw [hb.1.eq_of_plain (hshape ▸ hplain), sameWithin_of_plain hplain]
      | collection hi =>
        obtain ⟨j, rfl⟩ := Value.shape_eq_one hshape.symm
        obtain ⟨j', rfl, hj⟩ := hb.1.exists_collection
        exact beq_of_unique p.lists_unique hi hj
      | dictionary hi =>
        obtain ⟨j, rfl⟩ := Value.shape_eq_two hshape.symm
        obtain ⟨j', rfl, hj⟩ := hb.1.exists_dictionary
        exact beq_of_unique p.dicts_unique hi hj
      | groups hi =>
        obtain ⟨j, rfl⟩ := Value.shape_eq_four hshape.symm
        obtain ⟨j', rfl, hj⟩ := hb.1.exists_groups
        exact beq_of_unique p.groups_unique hi hj
    · have hshape' : a'.shape ≠ b'.shape := by rwa [ha.1.shape, hb.1.shape]
      rw [sameWithin_of_shape_ne hshape, sameWithin_of_shape_ne hshape']
  | succ n ih =>
    have hcells : Respects (p.At h) (h.sameWithin n) (h'.sameWithin n) :=
      fun _ _ _ _ ha hb => ih ha hb
    by_cases hshape : a.shape = b.shape
    · cases ha.1 with
      | plain hplain =>
        rw [hb.1.eq_of_plain (hshape ▸ hplain), sameWithin_of_plain hplain]
      | collection hi =>
        obtain ⟨j, rfl⟩ := Value.shape_eq_one hshape.symm
        obtain ⟨j', rfl, hj⟩ := hb.1.exists_collection
        rw [Heap.sameWithin, Heap.sameWithin, beq_of_unique p.lists_unique hi hj,
          hcells.sameItems _ _ _ _ (hh.list ha) (hh.list hb)]
      | dictionary hi =>
        obtain ⟨j, rfl⟩ := Value.shape_eq_two hshape.symm
        obtain ⟨j', rfl, hj⟩ := hb.1.exists_dictionary
        rw [Heap.sameWithin, Heap.sameWithin, beq_of_unique p.dicts_unique hi hj,
          hcells.sameEntry.sameItems _ _ _ _ (hh.dict ha) (hh.dict hb)]
      | groups hi =>
        obtain ⟨j, rfl⟩ := Value.shape_eq_four hshape.symm
        obtain ⟨j', rfl, hj⟩ := hb.1.exists_groups
        rw [Heap.sameWithin, Heap.sameWithin, beq_of_unique p.groups_unique hi hj,
          hcells.sameItems.sameEntry.sameItems _ _ _ _ (hh.group ha) (hh.group hb)]
    · have hshape' : a'.shape ≠ b'.shape := by rwa [ha.1.shape, hb.1.shape]
      rw [sameWithin_of_shape_ne hshape, sameWithin_of_shape_ne hshape']

/-- Two values are equal just if those that they are joined to are. -/
theorem Alike.same (hh : Alike p left right h h') (ha : p.At h a a') (hb : p.At h b b') :
    h'.same a' b' = h.same a b := same_congr (hh.sameWithin ha hb)

theorem Alike.eraseFirst (hh : Alike p left right h h') (hv : p.At h v v')
    {items items' : List Value} (hitems : List.Forall₂ (p.At h) items items') :
    List.Forall₂ (p.At h) (h.eraseFirst v items) (h'.eraseFirst v' items') := by
  induction hitems with
  | nil => exact .nil
  | cons ha hrest ih =>
    rw [Heap.eraseFirst, Heap.eraseFirst, hh.same ha hv]
    split
    · exact hrest
    · exact .cons ha ih

end Heap

end WorldScript
