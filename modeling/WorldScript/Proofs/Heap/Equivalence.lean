import Mathlib.Data.Fintype.Card
import Mathlib.Order.WellFounded
import WorldScript.Proofs.Heap.Depth
import WorldScript.Proofs.Heap.Reach

/-! # Equality of values is a partial equivalence

Two structural values are compared in one *round*: they are equal if they are one cell, or if they
have equal elements in the same places. Equality is what the rounds amount to. In a heap without
cycles every comparison comes to an end, so there is one and only one way to answer all of them
round by round, and it is `Heap.same`, which bounds the depth of the rounds.

Equality is symmetric and transitive, whatever is shared and whatever is copied. It is reflexive but
for the numbers that are none: those are not equal to themselves. Inside of a structural value they
do no harm to its equality with itself, since a cell is not looked into when it is compared with
itself.

* `Number.beq_iff`: equal numbers have one sign, mantissa and exponent, or both are zero.
* `Heap.Acyclic.induction`: induction from the elements of a value to the value.
* `Heap.same_eq_round`: equality is answered round by round.
* `Heap.same_partialEquivalence`: the laws. -/

namespace WorldScript

/-! ### Numbers -/

namespace Number

open Float.Model (UnpackedFloat)

variable {x y z : Float}

theorem beq_iff_compare :
    (x == y) = true ↔ x.toModel.unpack.compare y.toModel.unpack = some .eq := by
  change (x.toModel.unpack.compare y.toModel.unpack == some .eq) = true ↔ _
  exact beq_iff_eq

/-- Both are zero, or they are one and the same, and a number. -/
def Matches (a b : UnpackedFloat) : Prop :=
  (∃ s t, a = .zero s ∧ b = .zero t) ∨ a = b ∧ a ≠ .notANumber

theorem Matches.symm {a b : UnpackedFloat} (h : Matches a b) : Matches b a := by
  rcases h with ⟨s, t, rfl, rfl⟩ | ⟨rfl, hne⟩
  · exact .inl ⟨t, s, rfl, rfl⟩
  · exact .inr ⟨rfl, hne⟩

theorem Matches.trans {a b c : UnpackedFloat} (hab : Matches a b) (hbc : Matches b c) :
    Matches a c := by
  rcases hab with ⟨s, t, rfl, rfl⟩ | ⟨rfl, -⟩
  · rcases hbc with ⟨_, u, -, rfl⟩ | ⟨rfl, -⟩
    · exact .inl ⟨s, u, rfl, rfl⟩
    · exact .inl ⟨s, t, rfl, rfl⟩
  · exact hbc

/-- Numbers of one sign are compared by their exponents, and then by their mantissas. -/
theorem then_compare_eq_iff {e e' : Int} {m m' : Nat} :
    (compare e e').then (compare m m') = .eq ↔ e = e' ∧ m = m' := by
  rw [Ordering.then_eq_eq, compare_eq_iff_eq, compare_eq_iff_eq]

theorem compare_self {a : UnpackedFloat} (h : a ≠ .notANumber) : a.compare a = some .eq := by
  cases a with
  | notANumber => exact absurd rfl h
  | infinity s => cases s <;> rfl
  | zero s => rfl
  | finite s m e hm =>
    have hsame : (compare e e).then (compare m m) = .eq := then_compare_eq_iff.mpr ⟨rfl, rfl⟩
    cases s with
    | positive => exact congrArg some hsame
    | negative => exact congrArg some (Ordering.swap_eq_eq.mpr hsame)

theorem matches_of_compare {a b : UnpackedFloat} (h : a.compare b = some .eq) : Matches a b := by
  cases a with
  | notANumber => cases h
  | infinity s =>
    cases b with
    | infinity t =>
      have hsame : s = t := by
        cases s <;> cases t
        · rfl
        · cases h
        · cases h
        · rfl
      exact .inr ⟨congrArg _ hsame, by simp⟩
    | _ => cases s <;> cases h
  | zero s =>
    cases b with
    | notANumber => cases h
    | infinity t => cases t <;> cases h
    | zero t => exact .inl ⟨s, t, rfl, rfl⟩
    | finite t m e hm => cases t <;> cases h
  | finite s m e hm =>
    cases b with
    | notANumber => cases s <;> cases h
    | infinity t => cases s <;> cases t <;> cases h
    | zero t => cases s <;> cases h
    | finite t m' e' hm' =>
      have hsame : s = t ∧ (compare e e').then (compare m m') = .eq := by
        cases s <;> cases t
        · exact ⟨rfl, Ordering.swap_eq_eq.mp (Option.some.inj h)⟩
        · cases h
        · cases h
        · exact ⟨rfl, Option.some.inj h⟩
      obtain ⟨rfl, hsame⟩ := hsame
      obtain ⟨rfl, rfl⟩ := then_compare_eq_iff.mp hsame
      exact .inr ⟨rfl, fun h => by cases h⟩

theorem compare_eq_iff (a b : UnpackedFloat) : a.compare b = some .eq ↔ Matches a b := by
  refine ⟨matches_of_compare, ?_⟩
  rintro (⟨s, t, rfl, rfl⟩ | ⟨rfl, hne⟩)
  · rfl
  · exact compare_self hne

theorem beq_iff : (x == y) = true ↔ Matches x.toModel.unpack y.toModel.unpack :=
  beq_iff_compare.trans (compare_eq_iff _ _)

theorem beq_symm (h : (x == y) = true) : (y == x) = true := beq_iff.mpr (beq_iff.mp h).symm

theorem beq_trans (hxy : (x == y) = true) (hyz : (y == z) = true) : (x == z) = true :=
  beq_iff.mpr ((beq_iff.mp hxy).trans (beq_iff.mp hyz))

/-- A number is equal to itself, unless it is none. -/
theorem beq_self_iff : (x == x) = true ↔ x.isNaN = false := by
  change _ ↔ x.toModel.unpack.isNaN = false
  rw [beq_iff]
  cases x.toModel.unpack with
  | notANumber =>
    refine ⟨?_, fun h => by cases h⟩
    rintro (⟨s, t, hzero, -⟩ | ⟨-, hne⟩)
    · cases hzero
    · exact absurd rfl hne
  | _ => exact ⟨fun _ => rfl, fun _ => .inr ⟨rfl, fun h => by cases h⟩⟩

end Number

/-! ### Lists of values -/

section Lists

variable {α : Type} {f g : α → α → Bool}

theorem sameItems_symm {l m : List α}
    (hf : ∀ a ∈ l, ∀ b ∈ m, f a b = true → f b a = true) (h : sameItems f l m = true) :
    sameItems f m l = true := by
  induction l generalizing m with
  | nil =>
    cases m with
    | nil => rfl
    | cons b m => cases h
  | cons a l ih =>
    cases m with
    | nil => cases h
    | cons b m =>
      simp only [sameItems, Bool.and_eq_true] at h ⊢
      refine ⟨hf a (by simp) b (by simp) h.1, ih (fun a ha b hb => ?_) h.2⟩
      exact hf a (by simp [ha]) b (by simp [hb])

theorem sameItems_trans {l m k : List α}
    (hf : ∀ a ∈ l, ∀ b ∈ m, ∀ c ∈ k, f a b = true → f b c = true → f a c = true)
    (hlm : sameItems f l m = true) (hmk : sameItems f m k = true) : sameItems f l k = true := by
  induction l generalizing m k with
  | nil =>
    cases m with
    | nil => exact hmk
    | cons b m => cases hlm
  | cons a l ih =>
    cases m with
    | nil => cases hlm
    | cons b m =>
      cases k with
      | nil => cases hmk
      | cons c k =>
        simp only [sameItems, Bool.and_eq_true] at hlm hmk ⊢
        refine ⟨hf a (by simp) b (by simp) c (by simp) hlm.1 hmk.1, ih (fun a ha b hb c hc => ?_)
          hlm.2 hmk.2⟩
        exact hf a (by simp [ha]) b (by simp [hb]) c (by simp [hc])

theorem sameItems_congr {l m : List α} (hfg : ∀ a ∈ l, ∀ b ∈ m, f a b = g a b) :
    sameItems f l m = sameItems g l m := by
  induction l generalizing m with
  | nil => cases m <;> rfl
  | cons a l ih =>
    cases m with
    | nil => rfl
    | cons b m =>
      rw [sameItems, sameItems, hfg a (by simp) b (by simp), ih fun a ha b hb => ?_]
      exact hfg a (by simp [ha]) b (by simp [hb])

theorem sameEntry_symm {a b : String × α} (hf : f a.2 b.2 = true → f b.2 a.2 = true)
    (h : sameEntry f a b = true) : sameEntry f b a = true := by
  simp only [sameEntry, Bool.and_eq_true, beq_iff_eq] at h ⊢
  exact ⟨h.1.symm, hf h.2⟩

theorem sameEntry_trans {a b c : String × α}
    (hf : f a.2 b.2 = true → f b.2 c.2 = true → f a.2 c.2 = true) (hab : sameEntry f a b = true)
    (hbc : sameEntry f b c = true) : sameEntry f a c = true := by
  simp only [sameEntry, Bool.and_eq_true, beq_iff_eq] at hab hbc ⊢
  exact ⟨hab.1.trans hbc.1, hf hab.2 hbc.2⟩

theorem sameEntry_congr {a b : String × α} (hfg : f a.2 b.2 = g a.2 b.2) :
    sameEntry f a b = sameEntry g a b := by
  rw [sameEntry, sameEntry, hfg]

end Lists

namespace Heap

variable {h : Heap} {f g : Value → Value → Bool} {a b c : Value}

/-! ### One round -/

/-- **One round of a comparison**, where `f` compares the elements. -/
def round (h : Heap) (f : Value → Value → Bool) : Value → Value → Bool
  | .null, .null => true
  | .number a, .number b => a == b
  | .text a, .text b => a == b
  | .boolean a, .boolean b => a == b
  | .entity a, .entity b => a.kind == b.kind && a.id == b.id
  | .collection a, .collection b => a == b || sameItems f (h.lists.get a) (h.lists.get b)
  | .dictionary a, .dictionary b =>
    a == b || sameItems (sameEntry f) (h.dicts.get a).entries (h.dicts.get b).entries
  | .groups a, .groups b =>
    a == b || sameItems (sameEntry (sameItems f)) (h.groups.get a).entries (h.groups.get b).entries
  | _, _ => false

theorem mem_elements_dictionary {i : Nat} {e : String × Value}
    (he : e ∈ (h.dicts.get i).entries) : e.2 ∈ h.elements (.dictionary i) :=
  List.mem_map_of_mem he

theorem mem_elements_groups {i : Nat} {e : String × List Value} {x : Value}
    (he : e ∈ (h.groups.get i).entries) (hx : x ∈ e.2) : x ∈ h.elements (.groups i) :=
  List.mem_flatMap.mpr ⟨e, he, hx⟩

theorem round_congr (hfg : ∀ x ∈ h.elements a, ∀ y ∈ h.elements b, f x y = g x y) :
    h.round f a b = h.round g a b := by
  rcases apart_or a b with hapart | ⟨i, j, rfl, rfl⟩ | ⟨i, j, rfl, rfl⟩ | ⟨i, j, rfl, rfl⟩
  · cases a <;> cases b <;> first | rfl | simp [Apart, Value.shape] at hapart
  · exact congrArg (i == j || ·) (sameItems_congr hfg)
  · rw [round, round, sameItems_congr fun e he e' he' => sameEntry_congr ?_]
    exact hfg _ (mem_elements_dictionary he) _ (mem_elements_dictionary he')
  · rw [round, round, sameItems_congr fun e he e' he' => sameEntry_congr ?_]
    refine sameItems_congr fun x hx y hy => ?_
    exact hfg x (mem_elements_groups he hx) y (mem_elements_groups he' hy)

theorem round_symm (hf : ∀ x ∈ h.elements a, ∀ y ∈ h.elements b, f x y = true → f y x = true)
    (hab : h.round f a b = true) : h.round f b a = true := by
  have hcell : ∀ {i j : Nat}, (i == j) = true → (j == i) = true := by
    intro i j hij
    rw [beq_iff_eq] at hij ⊢
    exact hij.symm
  rcases apart_or a b with hapart | ⟨i, j, rfl, rfl⟩ | ⟨i, j, rfl, rfl⟩ | ⟨i, j, rfl, rfl⟩
  · cases a with
    | number x =>
      cases b with
      | number y => exact Number.beq_symm hab
      | _ => cases hab
    | _ => cases b <;> simp_all [round, Apart, Value.shape]
  all_goals rw [round, Bool.or_eq_true] at hab ⊢
  · exact hab.imp hcell (sameItems_symm hf)
  · refine hab.imp hcell (sameItems_symm fun e he e' he' => sameEntry_symm ?_)
    exact hf _ (mem_elements_dictionary he) _ (mem_elements_dictionary he')
  · refine hab.imp hcell (sameItems_symm fun e he e' he' => sameEntry_symm ?_)
    refine sameItems_symm fun x hx y hy => ?_
    exact hf x (mem_elements_groups he hx) y (mem_elements_groups he' hy)

/-- One cell may stand for two of the three; otherwise all three are looked into. -/
theorem cell_or_trans {i j k : Nat} {p q r : Bool} (hp : p = true → q = true → r = true)
    (hij : i = j → q = r) (hjk : j = k → p = r) (h₁ : (i == j || p) = true)
    (h₂ : (j == k || q) = true) : (i == k || r) = true := by
  simp only [Bool.or_eq_true, beq_iff_eq] at h₁ h₂ ⊢
  rcases h₁ with rfl | h₁
  · exact h₂.imp_right fun hq => hij rfl ▸ hq
  · rcases h₂ with rfl | h₂
    · exact Or.inr (hjk rfl ▸ h₁)
    · exact Or.inr (hp h₁ h₂)

theorem round_trans (hf : ∀ x ∈ h.elements a, ∀ y ∈ h.elements b, ∀ z ∈ h.elements c,
      f x y = true → f y z = true → f x z = true) (hab : h.round f a b = true)
    (hbc : h.round f b c = true) : h.round f a c = true := by
  cases a with
  | null =>
    cases b with
    | null => exact hbc
    | _ => cases hab
  | number x =>
    cases b with
    | number y =>
      cases c with
      | number z => exact Number.beq_trans hab hbc
      | _ => cases hbc
    | _ => cases hab
  | text s =>
    cases b with
    | text t =>
      rw [round, beq_iff_eq] at hab
      exact hab ▸ hbc
    | _ => cases hab
  | boolean p =>
    cases b with
    | boolean q =>
      rw [round, beq_iff_eq] at hab
      exact hab ▸ hbc
    | _ => cases hab
  | entity x =>
    cases b with
    | entity y =>
      cases c with
      | entity z =>
        simp only [round, Bool.and_eq_true, beq_iff_eq] at hab hbc ⊢
        exact ⟨hab.1.trans hbc.1, hab.2.trans hbc.2⟩
      | _ => cases hbc
    | _ => cases hab
  | collection i =>
    cases b with
    | collection j =>
      cases c with
      | collection k =>
        refine cell_or_trans (sameItems_trans hf) ?_ ?_ hab hbc
        · rintro rfl
          rfl
        · rintro rfl
          rfl
      | _ => cases hbc
    | _ => cases hab
  | dictionary i =>
    cases b with
    | dictionary j =>
      cases c with
      | dictionary k =>
        refine cell_or_trans (sameItems_trans fun e he e' he' e'' he'' => sameEntry_trans ?_) ?_ ?_
          hab hbc
        · exact hf _ (mem_elements_dictionary he) _ (mem_elements_dictionary he') _
            (mem_elements_dictionary he'')
        · rintro rfl
          rfl
        · rintro rfl
          rfl
      | _ => cases hbc
    | _ => cases hab
  | groups i =>
    cases b with
    | groups j =>
      cases c with
      | groups k =>
        refine cell_or_trans (sameItems_trans fun e he e' he' e'' he'' => sameEntry_trans ?_) ?_ ?_
          hab hbc
        · refine sameItems_trans fun x hx y hy z hz => ?_
          exact hf x (mem_elements_groups he hx) y (mem_elements_groups he' hy) z
            (mem_elements_groups he'' hz)
        · rintro rfl
          rfl
        · rintro rfl
          rfl
      | _ => cases hbc
    | _ => cases hab

/-- The depth is the number of rounds. -/
theorem sameWithin_eq_round (h : Heap) (n : Nat) (a b : Value) :
    h.sameWithin (n + 1) a b = h.round (h.sameWithin n) a b := by
  cases a <;> cases b <;> simp only [sameWithin, round]

/-- Equality is answered round by round. -/
theorem same_eq_round (h : Heap) (a b : Value) : h.same a b = h.round h.same a b := by
  rw [same_eq (Nat.le_succ _), sameWithin_eq_round]
  rfl

/-! ### Heaps without cycles -/

/-- No value is an element of itself, nor an element of one of its elements, and so on. -/
def Acyclic (h : Heap) : Prop :=
  ∀ v, ¬ Relation.TransGen (fun x y => x ∈ h.elements y) v v

theorem mem_cells_of_mem_elements {x v : Value} (hx : x ∈ h.elements v) : v ∈ h.cells := by
  by_contra hv
  have hdead : v.shape ≠ 0 → ¬ h.Live v := fun hshape hlive => hv (mem_cells_of_live hshape hlive)
  cases v with
  | collection i =>
    have hi := Nat.le_of_not_lt (hdead (by decide : (1 : BitVec 3) ≠ 0))
    rw [elements, get_of_size_le hi] at hx
    cases hx
  | dictionary i =>
    have hi := Nat.le_of_not_lt (hdead (by decide : (2 : BitVec 3) ≠ 0))
    rw [elements, get_of_size_le hi] at hx
    cases hx
  | groups i =>
    have hi := Nat.le_of_not_lt (hdead (by decide : (4 : BitVec 3) ≠ 0))
    rw [elements, get_of_size_le hi] at hx
    cases hx
  | _ => cases hx

/-- Without cycles, there is no endless way down: only cells have elements, and there are finitely
many of them. -/
theorem Acyclic.wellFounded (hacyclic : h.Acyclic) :
    WellFounded fun x y => x ∈ h.elements y := by
  let below : Fin h.cells.length → Fin h.cells.length → Prop := fun i j =>
    Relation.TransGen (fun x y => x ∈ h.elements y) (h.cells.get i) (h.cells.get j)
  have htrans : IsTrans _ below := ⟨fun _ _ _ => Relation.TransGen.trans⟩
  have hirrefl : Std.Irrefl below := ⟨fun i => hacyclic (h.cells.get i)⟩
  have hbelow : WellFounded below := Finite.wellFounded_of_trans_of_irrefl below
  have hcell : ∀ i, Acc (fun x y => x ∈ h.elements y) (h.cells.get i) := by
    intro i
    induction i using hbelow.induction with
    | _ i ih =>
      refine .intro _ fun x hx => ?_
      by_cases hmem : x ∈ h.cells
      · obtain ⟨j, rfl⟩ := List.get_of_mem hmem
        exact ih j (.single hx)
      · exact .intro _ fun y hy => absurd (mem_cells_of_mem_elements hy) hmem
  refine ⟨fun v => .intro _ fun x hx => ?_⟩
  obtain ⟨i, rfl⟩ := List.get_of_mem (mem_cells_of_mem_elements hx)
  exact (hcell i).inv hx

/-- **Induction from elements to values.** -/
theorem Acyclic.induction (hacyclic : h.Acyclic) {P : Value → Prop}
    (hstep : ∀ v, (∀ x ∈ h.elements v, P x) → P v) (v : Value) : P v :=
  hacyclic.wellFounded.induction v hstep

/-- A heap whose values can be ranked has no cycles. -/
theorem acyclic_of_rank (rank : Value → Nat)
    (hrank : ∀ v, ∀ x ∈ h.elements v, rank x < rank v) : h.Acyclic := by
  have hless : ∀ {x v}, Relation.TransGen (fun x y => x ∈ h.elements y) x v → rank x < rank v := by
    intro x v hxv
    induction hxv with
    | single hx => exact hrank _ _ hx
    | tail _ hx ih => exact ih.trans (hrank _ _ hx)
  exact fun v hv => Nat.lt_irrefl _ (hless hv)

/-! ### The laws -/

section Laws

variable (hacyclic : h.Acyclic)

include hacyclic

/-- Whatever answers all comparisons round by round gives the same answers. -/
theorem Acyclic.eq_same (hf : ∀ a b, f a b = h.round f a b) : f = h.same := by
  suffices hall : ∀ a b, f a b = h.same a b from funext fun a => funext fun b => hall a b
  intro a
  induction a using hacyclic.induction with
  | _ a ih =>
    intro b
    rw [hf a b, same_eq_round, round_congr fun x hx y _ => ih x hx y]

theorem Acyclic.same_symm : ∀ a b, h.same a b = true → h.same b a = true := by
  intro a
  induction a using hacyclic.induction with
  | _ a ih =>
    intro b hab
    rw [same_eq_round] at hab ⊢
    exact round_symm (fun x hx y _ => ih x hx y) hab

theorem Acyclic.same_trans :
    ∀ a b c, h.same a b = true → h.same b c = true → h.same a c = true := by
  intro a
  induction a using hacyclic.induction with
  | _ a ih =>
    intro b c hab hbc
    rw [same_eq_round] at hab hbc ⊢
    exact round_trans (fun x hx y _ z _ => ih x hx y z) hab hbc

end Laws

/-- A cell is equal to itself, whatever it holds. -/
theorem same_self_of_structural (h : Heap) {v : Value} (hv : v.shape ≠ 0) : h.same v v = true := by
  rw [same_eq_round]
  cases v with
  | collection i => simp [round]
  | dictionary i => simp [round]
  | groups i => simp [round]
  | _ => exact absurd rfl hv

/-- None of the numbers in the value, at whatever depth, is a NaN. -/
def NaNFree (h : Heap) (v : Value) : Prop := ∀ n, h.Reaches [v] (.number n) → n.isNaN = false

theorem NaNFree.same_self {v : Value} (hv : h.NaNFree v) : h.same v v = true := by
  by_cases hshape : v.shape = 0
  · rw [same_eq_round]
    cases v with
    | number n => exact Number.beq_self_iff.mpr (hv n (.root (by simp)))
    | collection i => cases hshape
    | dictionary i => cases hshape
    | groups i => cases hshape
    | _ => simp [round]
  · exact h.same_self_of_structural hshape

/-- **Equality of values is a partial equivalence.** In a heap without cycles, `same` is the one
answer to all comparisons that is given round by round. It is symmetric and transitive. A value that
contains no NaN is equal to itself, and a structural value is equal to all that have its cell, also
if it does contain one. -/
theorem same_partialEquivalence (h : Heap) (hacyclic : h.Acyclic) :
    (∀ f, (∀ a b, f a b = h.round f a b) ↔ f = h.same) ∧
      (∀ a b, h.same a b = true → h.same b a = true) ∧
      (∀ a b c, h.same a b = true → h.same b c = true → h.same a c = true) ∧
      (∀ v, h.NaNFree v → h.same v v = true) ∧
      ∀ v, v.shape ≠ 0 → h.same v v = true := by
  refine ⟨fun f => ⟨hacyclic.eq_same, ?_⟩, hacyclic.same_symm, hacyclic.same_trans,
    fun v => NaNFree.same_self, fun v => h.same_self_of_structural⟩
  rintro rfl
  exact h.same_eq_round

/-- A sequence with a NaN, three sequences that hold it twice, and groups that hold two of these. -/
def sharing : Heap where
  lists := ⟨#[[.number (0 / 0), .text "x"], [.collection 0, .collection 0],
    [.collection 0, .collection 0], [.collection 0, .collection 0]]⟩
  dicts := .empty
  groups := ⟨#[⟨[("k", [.collection 1, .collection 2])]⟩]⟩

/-- How deep the values of `sharing` are. -/
def sharingRank : Value → Nat
  | .collection 0 => 1
  | .collection _ => 2
  | .groups _ => 3
  | _ => 0

theorem acyclic_sharing : sharing.Acyclic := by
  have hall : ∀ v ∈ sharing.cells, ∀ x ∈ sharing.elements v, sharingRank x < sharingRank v := by
    decide
  exact acyclic_of_rank sharingRank fun v x hx => hall v (mem_cells_of_mem_elements hx) x hx

theorem same_partialEquivalence_sharing :
    sharing.Acyclic ∧ sharing.same (.collection 1) (.collection 3) = true ∧
      sharing.same (.collection 3) (.collection 1) = true ∧
      sharing.same (.groups 0) (.groups 0) = true := by
  obtain ⟨-, hsymm, htrans, -, halias⟩ := same_partialEquivalence sharing acyclic_sharing
  have hlong := htrans (.collection 1) (.collection 2) (.collection 3) (by decide +kernel)
    (by decide +kernel)
  exact ⟨acyclic_sharing, hlong, hsymm _ _ hlong, halias _ (by decide)⟩

end Heap

end WorldScript
