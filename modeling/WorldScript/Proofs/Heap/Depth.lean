import Mathlib.Data.Fintype.Card
import Mathlib.Data.Fintype.Prod
import WorldScript.Proofs.Heap.Cells

/-! # The bounds of texts and of equality are large enough

Values are shown and compared to a bounded depth of cells. What is found at some depth is found at
every greater one. The values that have a text at a depth, and the pairs that are equal at a depth,
are decided by those among the cells; these sets only grow with the depth, and if one of them stands
still for one step it stands still for ever. So they do not grow any more beyond a depth of the
number of cells, or of pairs of cells.

* `eq_of_chain`: a sequence that is decided by growing finite sets.
* `Heap.render_congr`, `Heap.same_congr`: texts and equality do not depend on the number of cells,
  but only on what is found at each depth. -/

namespace WorldScript

/-- A sequence that goes on in one way from each of its members, and stands still whenever a growing
set of finitely many things does, stands still from their number on. -/
theorem eq_of_chain {γ ι : Type} [Fintype ι] (F : Nat → γ) (S : Nat → Finset ι)
    (hsucc : ∀ n m, F n = F m → F (n + 1) = F (m + 1)) (hmono : ∀ n, S n ⊆ S (n + 1))
    (hdecides : ∀ n, S n = S (n + 1) → F n = F (n + 1)) {m : Nat} (hm : Fintype.card ι ≤ m) :
    F m = F (Fintype.card ι) := by
  obtain ⟨k, hk, hstill⟩ : ∃ k ≤ Fintype.card ι, S k = S (k + 1) := by
    by_contra hgrows
    have hcard : ∀ n ≤ Fintype.card ι + 1, n ≤ (S n).card := by
      intro n
      induction n with
      | zero => exact fun _ => Nat.zero_le _
      | succ n ih =>
        intro hn
        have hne : S n ≠ S (n + 1) := fun heq => hgrows ⟨n, by omega, heq⟩
        have hlt := Finset.card_lt_card ((hmono n).ssubset_of_ne hne)
        have hle := ih (by omega)
        omega
    have hfull := hcard _ (Nat.le_refl _)
    have hbound := Finset.card_le_univ (S (Fintype.card ι + 1))
    omega
  have hconst : ∀ j, F (k + j) = F k := by
    intro j
    induction j with
    | zero => rfl
    | succ j ih => exact (hsucc _ _ ih).trans (hdecides k hstill).symm
  obtain ⟨a, rfl⟩ := Nat.exists_eq_add_of_le (hk.trans hm)
  obtain ⟨b, hb⟩ := Nat.exists_eq_add_of_le hk
  rw [hb, hconst, hconst]

namespace Heap

variable {h : Heap} {n : Nat}

/-! ### Cells -/

/-- All cells, as values. -/
def cells (h : Heap) : List Value :=
  (List.range h.lists.size).map .collection ++ (List.range h.dicts.size).map .dictionary ++
    (List.range h.groups.size).map .groups

theorem length_cells (h : Heap) : h.cells.length = h.size := by
  simp [cells, size, Nat.add_assoc]

theorem mem_cells_of_live {v : Value} (hv : v.shape ≠ 0) (hlive : h.Live v) : v ∈ h.cells := by
  cases v with
  | collection i => simpa [cells, Live] using hlive
  | dictionary i => simpa [cells, Live] using hlive
  | groups i => simpa [cells, Live] using hlive
  | _ => exact absurd rfl hv

/-- There is nothing where no cell is. -/
theorem get_of_size_le {α : Type} [Inhabited α] {p : Pool α} {i : Nat} (hi : p.size ≤ i) :
    p.get i = default := by
  rw [Pool.size] at hi
  simp [Pool.get, hi]

/-! ### Texts -/

theorem showAll_mono {α : Type} {f g : α → Option String} {l : List α}
    (hfg : ∀ a t, f a = some t → g a = some t) {ts : List String} (hf : showAll f l = some ts) :
    showAll g l = some ts := by
  induction l generalizing ts with
  | nil => exact hf
  | cons a l ih =>
    simp only [showAll, Option.bind_eq_bind, Option.bind_eq_some_iff, Option.pure_def] at hf ⊢
    obtain ⟨first, ha, others, hl, hts⟩ := hf
    exact ⟨first, hfg a first ha, others, ih hl, hts⟩

/-- A text that is found at some depth is found one deeper. -/
theorem showWithin_mono {v : Value} {t : String} (hv : h.showWithin n v = some t) :
    h.showWithin (n + 1) v = some t := by
  induction n generalizing v t with
  | zero =>
    cases v with
    | collection i => cases hv
    | dictionary i => cases hv
    | groups i => cases hv
    | _ => simpa [showWithin] using hv
  | succ n ih =>
    cases v with
    | collection i =>
      rw [showWithin, Option.map_eq_some_iff] at hv ⊢
      obtain ⟨parts, hparts, ht⟩ := hv
      exact ⟨parts, showAll_mono (fun _ _ => ih) hparts, ht⟩
    | dictionary i =>
      rw [showWithin, Option.map_eq_some_iff] at hv ⊢
      obtain ⟨parts, hparts, ht⟩ := hv
      refine ⟨parts, showAll_mono (fun e t he => ?_) hparts, ht⟩
      obtain ⟨shown, hshown, ht⟩ := Option.map_eq_some_iff.mp he
      rw [ih hshown, Option.map_some, ht]
    | groups i =>
      rw [showWithin, Option.map_eq_some_iff] at hv ⊢
      obtain ⟨parts, hparts, ht⟩ := hv
      refine ⟨parts, showAll_mono (fun e t he => ?_) hparts, ht⟩
      obtain ⟨shown, hshown, ht⟩ := Option.map_eq_some_iff.mp he
      rw [showAll_mono (fun _ _ => ih) hshown, Option.map_some, ht]
    | _ => simpa [showWithin] using hv

theorem showWithin_succ {n m : Nat} (hnm : h.showWithin n = h.showWithin m) :
    h.showWithin (n + 1) = h.showWithin (m + 1) := by
  funext v
  cases v <;> simp only [showWithin, hnm]

/-- A value that is no cell is shown without a look at another one. -/
theorem showWithin_of_not_mem {v : Value} (hv : v ∉ h.cells) (n : Nat) :
    h.showWithin (n + 1) v = h.showWithin 1 v := by
  have hdead : v.shape ≠ 0 → ¬ h.Live v := fun hshape hlive => hv (mem_cells_of_live hshape hlive)
  cases v with
  | collection i =>
    have hi := Nat.le_of_not_lt (hdead (by decide : (1 : BitVec 3) ≠ 0))
    simp only [showWithin, get_of_size_le hi]
    rfl
  | dictionary i =>
    have hi := Nat.le_of_not_lt (hdead (by decide : (2 : BitVec 3) ≠ 0))
    simp only [showWithin, get_of_size_le hi]
    rfl
  | groups i =>
    have hi := Nat.le_of_not_lt (hdead (by decide : (4 : BitVec 3) ≠ 0))
    simp only [showWithin, get_of_size_le hi]
    rfl
  | _ => simp only [showWithin]

/-- The cells that have a text at a depth. -/
def shown (h : Heap) (n : Nat) : Finset (Fin h.cells.length) :=
  Finset.univ.filter fun k => (h.showWithin n (h.cells.get k)).isSome = true

theorem mem_shown {k : Fin h.cells.length} :
    k ∈ h.shown n ↔ (h.showWithin n (h.cells.get k)).isSome = true := by
  simp [shown]

/-- If no further cell has a text one deeper, then no further value has. -/
theorem showWithin_eq_of_shown (hstill : h.shown (n + 1) = h.shown (n + 2)) :
    h.showWithin (n + 1) = h.showWithin (n + 2) := by
  funext v
  by_cases hv : v ∈ h.cells
  · obtain ⟨k, rfl⟩ := List.get_of_mem hv
    cases hshown : h.showWithin (n + 1) (h.cells.get k) with
    | some t => exact (showWithin_mono hshown).symm
    | none =>
      have hout : k ∉ h.shown (n + 2) := by
        rw [← hstill, mem_shown, hshown]
        exact Bool.false_ne_true
      rw [mem_shown, Option.not_isSome_iff_eq_none] at hout
      exact hout.symm
  · exact (showWithin_of_not_mem hv n).trans (showWithin_of_not_mem hv (n + 1)).symm

/-- Beyond the number of cells, texts do not depend on the depth. -/
theorem showWithin_of_size_le {m : Nat} (hm : h.size ≤ m) :
    h.showWithin (m + 1) = h.showWithin (h.size + 1) := by
  have hcard : Fintype.card (Fin h.cells.length) = h.size := by
    rw [Fintype.card_fin, length_cells]
  have hgrows : ∀ n, h.shown (n + 1) ⊆ h.shown (n + 2) := by
    intro n k hk
    obtain ⟨t, ht⟩ := Option.isSome_iff_exists.mp (mem_shown.mp hk)
    exact mem_shown.mpr (by rw [showWithin_mono ht]; rfl)
  have hchain := eq_of_chain (fun n => h.showWithin (n + 1)) (fun n => h.shown (n + 1))
    (fun _ _ => showWithin_succ) hgrows (fun _ => showWithin_eq_of_shown) (hcard.trans_le hm)
  rwa [hcard] at hchain

theorem render_eq {m : Nat} (hm : h.size ≤ m) (v : Value) :
    h.render v = (h.showWithin (m + 1) v).getD "" := by
  rw [render, showWithin_of_size_le hm]

/-- Two values that have the same text at each depth have the same text. -/
theorem render_congr {h' : Heap} {v v' : Value}
    (hall : ∀ n, h'.showWithin n v' = h.showWithin n v) : h'.render v' = h.render v := by
  rw [render_eq (Nat.le_max_left h'.size h.size), render_eq (Nat.le_max_right h'.size h.size), hall]

/-! ### Equality -/

theorem sameItems_mono {α : Type} {f g : α → α → Bool} (hfg : ∀ a b, f a b = true → g a b = true)
    (l l' : List α) (hf : sameItems f l l' = true) : sameItems g l l' = true := by
  induction l generalizing l' with
  | nil =>
    cases l' with
    | nil => rfl
    | cons b l' => exact hf
  | cons a l ih =>
    cases l' with
    | nil => exact hf
    | cons b l' =>
      simp only [sameItems, Bool.and_eq_true] at hf ⊢
      exact ⟨hfg a b hf.1, ih l' hf.2⟩

theorem sameEntry_mono {α : Type} {f g : α → α → Bool} (hfg : ∀ a b, f a b = true → g a b = true)
    (a b : String × α) (hf : sameEntry f a b = true) : sameEntry g a b = true := by
  simp only [sameEntry, Bool.and_eq_true] at hf ⊢
  exact ⟨hf.1, hfg _ _ hf.2⟩

/-- Two values whose contents are never compared. -/
def Apart (a b : Value) : Prop := a.shape ≠ b.shape ∨ a.shape = 0

/-- Only two structural values of one shape have contents that are compared. -/
theorem apart_or (a b : Value) :
    Apart a b ∨ (∃ i j, a = .collection i ∧ b = .collection j) ∨
      (∃ i j, a = .dictionary i ∧ b = .dictionary j) ∨ ∃ i j, a = .groups i ∧ b = .groups j := by
  cases a <;> cases b <;> simp [Apart, Value.shape]

theorem sameWithin_of_apart {a b : Value} (hab : Apart a b) (n m : Nat) :
    h.sameWithin n a b = h.sameWithin m a b := by
  cases a <;> cases b <;> first | simp only [sameWithin] | simp [Apart, Value.shape] at hab

/-- Values that are equal at some depth are equal one deeper. -/
theorem sameWithin_mono {a b : Value} (hab : h.sameWithin n a b = true) :
    h.sameWithin (n + 1) a b = true := by
  induction n generalizing a b with
  | zero =>
    rcases apart_or a b with hapart | ⟨i, j, rfl, rfl⟩ | ⟨i, j, rfl, rfl⟩ | ⟨i, j, rfl, rfl⟩
    · rwa [sameWithin_of_apart hapart (0 + 1) 0]
    all_goals
      rw [sameWithin] at hab
      rw [sameWithin, hab, Bool.true_or]
  | succ n ih =>
    rcases apart_or a b with hapart | ⟨i, j, rfl, rfl⟩ | ⟨i, j, rfl, rfl⟩ | ⟨i, j, rfl, rfl⟩
    · rwa [sameWithin_of_apart hapart (n + 1 + 1) (n + 1)]
    all_goals rw [sameWithin, Bool.or_eq_true] at hab ⊢
    · exact hab.imp_right (sameItems_mono (fun _ _ => ih) _ _)
    · exact hab.imp_right (sameItems_mono (sameEntry_mono fun _ _ => ih) _ _)
    · exact hab.imp_right (sameItems_mono (sameEntry_mono (sameItems_mono fun _ _ => ih)) _ _)

theorem sameWithin_succ {n m : Nat} (hnm : h.sameWithin n = h.sameWithin m) :
    h.sameWithin (n + 1) = h.sameWithin (m + 1) := by
  funext a b
  rcases apart_or a b with hapart | ⟨i, j, rfl, rfl⟩ | ⟨i, j, rfl, rfl⟩ | ⟨i, j, rfl, rfl⟩
  · exact sameWithin_of_apart hapart _ _
  all_goals rw [sameWithin, sameWithin, hnm]

theorem sameItems_nil {α : Type} (f g : α → α → Bool) {l l' : List α} (hl : l = [] ∨ l' = []) :
    sameItems f l l' = sameItems g l l' := by
  rcases hl with rfl | rfl
  · cases l' <;> rfl
  · cases l <;> rfl

/-- A value that is no cell is compared without a look at another one. -/
theorem sameWithin_of_not_mem {a b : Value} (hab : a ∉ h.cells ∨ b ∉ h.cells) (n : Nat) :
    h.sameWithin (n + 1) a b = h.sameWithin 1 a b := by
  rcases apart_or a b with hapart | ⟨i, j, rfl, rfl⟩ | ⟨i, j, rfl, rfl⟩ | ⟨i, j, rfl, rfl⟩
  · exact sameWithin_of_apart hapart _ _
  · have hempty : h.lists.get i = [] ∨ h.lists.get j = [] :=
      hab.imp (fun hi => get_of_size_le (by simpa [cells] using hi))
        (fun hj => get_of_size_le (by simpa [cells] using hj))
    rw [sameWithin, sameWithin, sameItems_nil _ (h.sameWithin 0) hempty]
  · have hempty : (h.dicts.get i).entries = [] ∨ (h.dicts.get j).entries = [] :=
      hab.imp (fun hi => by rw [get_of_size_le (by simpa [cells] using hi)]; rfl)
        (fun hj => by rw [get_of_size_le (by simpa [cells] using hj)]; rfl)
    rw [sameWithin, sameWithin, sameItems_nil _ (sameEntry (h.sameWithin 0)) hempty]
  · have hempty : (h.groups.get i).entries = [] ∨ (h.groups.get j).entries = [] :=
      hab.imp (fun hi => by rw [get_of_size_le (by simpa [cells] using hi)]; rfl)
        (fun hj => by rw [get_of_size_le (by simpa [cells] using hj)]; rfl)
    rw [sameWithin, sameWithin, sameItems_nil _ (sameEntry (sameItems (h.sameWithin 0))) hempty]

/-- The pairs of cells that are equal at a depth. -/
def equal (h : Heap) (n : Nat) : Finset (Fin h.cells.length × Fin h.cells.length) :=
  Finset.univ.filter fun k => h.sameWithin n (h.cells.get k.1) (h.cells.get k.2) = true

theorem mem_equal {k : Fin h.cells.length × Fin h.cells.length} :
    k ∈ h.equal n ↔ h.sameWithin n (h.cells.get k.1) (h.cells.get k.2) = true := by
  simp [equal]

/-- If no further pair of cells is equal one deeper, then no further pair of values is. -/
theorem sameWithin_eq_of_equal (hstill : h.equal (n + 1) = h.equal (n + 2)) :
    h.sameWithin (n + 1) = h.sameWithin (n + 2) := by
  funext a b
  by_cases hab : a ∈ h.cells ∧ b ∈ h.cells
  · obtain ⟨i, rfl⟩ := List.get_of_mem hab.1
    obtain ⟨j, rfl⟩ := List.get_of_mem hab.2
    rw [Bool.eq_iff_iff]
    have hpair : (i, j) ∈ h.equal (n + 1) ↔ (i, j) ∈ h.equal (n + 2) := by rw [hstill]
    rwa [mem_equal, mem_equal] at hpair
  · have hout := not_and_or.mp hab
    exact (sameWithin_of_not_mem hout n).trans (sameWithin_of_not_mem hout (n + 1)).symm

/-- Beyond the number of pairs of cells, equality does not depend on the depth. -/
theorem sameWithin_of_size_le {m : Nat} (hm : h.size * h.size ≤ m) :
    h.sameWithin (m + 1) = h.sameWithin (h.size * h.size + 1) := by
  have hcard : Fintype.card (Fin h.cells.length × Fin h.cells.length) = h.size * h.size := by
    rw [Fintype.card_prod, Fintype.card_fin, length_cells]
  have hgrows : ∀ n, h.equal (n + 1) ⊆ h.equal (n + 2) :=
    fun n k hk => mem_equal.mpr (sameWithin_mono (mem_equal.mp hk))
  have hchain := eq_of_chain (fun n => h.sameWithin (n + 1)) (fun n => h.equal (n + 1))
    (fun _ _ => sameWithin_succ) hgrows (fun _ => sameWithin_eq_of_equal) (hcard.trans_le hm)
  rwa [hcard] at hchain

theorem same_eq {m : Nat} (hm : h.size * h.size ≤ m) (a b : Value) :
    h.same a b = h.sameWithin (m + 1) a b := by
  rw [same, sameWithin_of_size_le hm]

/-- Two pairs of values that are compared alike at each depth are compared alike. -/
theorem same_congr {h' : Heap} {a b a' b' : Value}
    (hall : ∀ n, h'.sameWithin n a' b' = h.sameWithin n a b) : h'.same a' b' = h.same a b := by
  rw [same_eq (Nat.le_max_left (h'.size * h'.size) (h.size * h.size)),
    same_eq (Nat.le_max_right (h'.size * h'.size) (h.size * h.size)), hall]

end Heap

end WorldScript
