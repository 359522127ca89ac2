import WorldScript.Proofs.Heap.Reach
import WorldScript.Proofs.Run.Local

/-! # Blocks that share nothing

A run touches only the cells that are reached from its variables, and those that are new. So a block
that waits finds its own cells as they were, even if another block has run before, as long as no
cell is reached from the variables of both. Then it does not matter which of the two runs first: the
heap after both is the same, but for the addresses of the new cells, of which those of the first
block to run come first.

* `Machine.alike_of_agree`: states from which runs go beside each other.
* `Pairing.swap`, `Heap.Alike.swap`: the heaps after two blocks, in one order and in the other.
* `DelayedBlock.fireBoth_comm`: the statement for two blocks. -/

namespace WorldScript

/-! ### Runs from heaps that agree -/

theorem scheduleAll_nothing (q : Option (Queue DelayedBlock)) :
    q = q.map (·.scheduleAll []) := by
  cases q <;> rfl

/-- States with the same variables, whose heaps agree on what is reached from these. -/
theorem Machine.alike_of_agree (m m' : Machine) (hvars : m'.vars = m.vars)
    (hprogram : m'.program = m.program) (hqueue : m'.queue.isSome = m.queue.isSome)
    (hagree : m.world.heap.AgreeOn m'.world.heap m.vars.values) :
    Machine.Alike (.upToNew m.world.heap m'.world.heap m.vars.values) m m' m m' := by
  refine ⟨⟨hagree.alike, rfl, rfl⟩, ?_, hprogram, hqueue, [], [], .nil, scheduleAll_nothing _,
    scheduleAll_nothing _⟩
  rw [hvars]
  exact Space.alike_self fun v hv => hagree.at (.root hv)

namespace Heap

variable {h h' : Heap} {roots others : List Value}

/-- No cell is reached from both. -/
def Unshared (h : Heap) (roots others : List Value) : Prop :=
  ∀ v, h.Reaches roots v → h.Reaches others v → v.shape = 0

/-- No cell holds what does not exist. -/
def Closed (h : Heap) : Prop := ∀ v, h.Live v → ∀ x ∈ h.elements v, h.Live x

theorem Closed.agreeOn (hclosed : h.Closed) (hroots : ∀ v ∈ roots, h.Live v) :
    h.AgreeOn h roots := by
  have hlive : ∀ v, h.Reaches roots v → h.Live v := by
    intro v hv
    induction hv with
    | root hroot => exact hroots _ hroot
    | element _ hx ih => exact hclosed _ ih _ hx
  exact fun v hv => ⟨hlive v hv, hlive v hv, .refl h v⟩

/-- What is left alone where the roots reach is the same for others that share nothing. -/
theorem AgreeOn.of_unshared (hothers : h.AgreeOn h others) (hunshared : h.Unshared roots others)
    (hgrows : h.Grows h')
    (hframe : ∀ v, h.Live v → ¬ h.Reaches roots v → h.SameCell h' v) : h.AgreeOn h' others := by
  intro v hv
  have hlive := (hothers v hv).1
  refine ⟨hlive, hgrows v hlive, ?_⟩
  by_cases hroots : h.Reaches roots v
  · have hplain := hunshared v hroots hv
    cases v with
    | collection c => cases hplain
    | dictionary c => cases hplain
    | groups c => cases hplain
    | _ => trivial
  · exact hframe v hlive hroots

end Heap

/-! ### New cells in two orders -/

/-- The old addresses as they are; then `k` new ones and after them `k'` more, which in the other
order have come first. -/
def swapped (n k k' i j : Nat) : Prop :=
  (i < n ∧ i = j) ∨ (n ≤ i ∧ i < n + k ∧ j = i + k') ∨
    (n + k ≤ i ∧ i < n + k + k' ∧ i = j + k)

theorem biUnique_swapped (n k k' : Nat) : Relator.BiUnique (swapped n k k') := by
  constructor
  · intro i j l hi hj
    unfold swapped at hi hj
    omega
  · intro i j l hi hj
    unfold swapped at hi hj
    omega

theorem lt_of_swapped {n k k' i j : Nat} (hij : swapped n k k' i j) :
    i < n + k + k' ∧ j < n + k + k' := by
  unfold swapped at hij
  omega

theorem exists_swapped {n k k' i : Nat} (hi : i < n + k + k') : ∃ j, swapped n k k' i j := by
  by_cases hold : i < n
  · exact ⟨i, Or.inl ⟨hold, rfl⟩⟩
  · by_cases hfirst : i < n + k
    · exact ⟨i + k', Or.inr (Or.inl ⟨by omega, hfirst, rfl⟩)⟩
    · exact ⟨i - k, Or.inr (Or.inr ⟨by omega, hi, by omega⟩)⟩

theorem exists_swapped_right {n k k' j : Nat} (hj : j < n + k + k') : ∃ i, swapped n k k' i j := by
  by_cases hold : j < n
  · exact ⟨j, Or.inl ⟨hold, rfl⟩⟩
  · by_cases hfirst : j < n + k'
    · exact ⟨j + k, Or.inr (Or.inr ⟨by omega, by omega, rfl⟩)⟩
    · exact ⟨j - k', Or.inr (Or.inl ⟨by omega, by omega, by omega⟩)⟩

/-- The cells after two runs, where the first one alone leads from the heap `h` to `h₁` and the
second one to `h₂`. -/
def Pairing.swap (h h₁ h₂ : Heap) : Pairing where
  lists := swapped h.lists.size (h₁.lists.size - h.lists.size) (h₂.lists.size - h.lists.size)
  dicts := swapped h.dicts.size (h₁.dicts.size - h.dicts.size) (h₂.dicts.size - h.dicts.size)
  groups := swapped h.groups.size (h₁.groups.size - h.groups.size) (h₂.groups.size - h.groups.size)
  lists_unique := biUnique_swapped _ _ _
  dicts_unique := biUnique_swapped _ _ _
  groups_unique := biUnique_swapped _ _ _

namespace Pool

variable {α : Type} [Inhabited α] {shared₁ shared₂ : Nat → Prop} {R R₁ R₂ : α → α → Prop}
  {p p₁ p₂ p₁₂ p₂₁ : Pool α}

/-- As many cells come in a run after another one as come without it. -/
theorem Alike.size_eq {shared : Nat → Prop} {p' q q' : Pool α}
    (h : Alike (UpToNew shared p.size p'.size) R p p' q q') (hle : p.size ≤ q.size) :
    q'.size = p'.size + (q.size - p.size) := by
  rcases upToNew_iff.mp (h.fresh 0) with ⟨-, -, hlt⟩ | ⟨k, hk, hk'⟩ <;> omega

/-- The pools `q` and `q'` have the cells of `p` and as many more as `p₁` and `p₂` together, in one
order and in the other, with related contents. -/
structure Swapped (R : α → α → Prop) (p p₁ p₂ q q' : Pool α) : Prop where
  size : q.size = p.size + (p₁.size - p.size) + (p₂.size - p.size)
  size' : q'.size = p.size + (p₁.size - p.size) + (p₂.size - p.size)
  get : ∀ {i j}, swapped p.size (p₁.size - p.size) (p₂.size - p.size) i j → R (q.get i) (q'.get j)

/-- Two runs after each other, in one order and in the other. -/
theorem Alike.swap (h₁ : Alike (UpToNew shared₁ p.size p₂.size) R₁ p p₂ p₁ p₂₁)
    (h₂ : Alike (UpToNew shared₂ p.size p₁.size) R₂ p p₁ p₂ p₁₂)
    (hdisjoint : ∀ i, shared₁ i → ¬ shared₂ i) (hle₁ : p.size ≤ p₁.size) (hle₂ : p.size ≤ p₂.size)
    (hR₁ : ∀ a b, R₁ a b → R a b) (hR₂ : ∀ a b, R₂ a b → R b a)
    (hself : ∀ i < p.size, R (p.get i) (p.get i)) : Swapped R p p₁ p₂ p₁₂ p₂₁ := by
  have hsize := h₂.size_eq hle₂
  have hsize' := h₁.size_eq hle₁
  refine ⟨by omega, by omega, fun {i j} hij => ?_⟩
  rcases hij with ⟨hi, rfl⟩ | ⟨hi, hi₁, rfl⟩ | ⟨hi, hi₁, hj⟩
  · -- An old cell: the first run may have changed it, or the second one, but not both.
    by_cases hs₁ : shared₁ i
    · have hpair : UpToNew shared₁ p.size p₂.size i i := UpToNew.old hs₁ hi (by omega)
      rw [h₂.frame_right (by omega) (hdisjoint i hs₁)]
      exact hR₁ _ _ (h₁.get hpair (by omega))
    · rw [h₁.frame_right (by omega) hs₁]
      by_cases hs₂ : shared₂ i
      · have hpair : UpToNew shared₂ p.size p₁.size i i := UpToNew.old hs₂ hi (by omega)
        exact hR₂ _ _ (h₂.get hpair (by omega))
      · rw [h₂.frame_right (by omega) hs₂, h₁.frame_left hi hs₁, h₂.frame_left hi hs₂]
        exact hself i hi
  · -- A cell that the first run made.
    have hpair : UpToNew shared₁ p.size p₂.size i (i + (p₂.size - p.size)) :=
      upToNew_iff.mpr (Or.inr ⟨i - p.size, by omega, by omega⟩)
    have hother : ∀ k, ¬ UpToNew shared₂ p.size p₁.size k i := by
      intro k hk
      rcases upToNew_iff.mp hk with ⟨rfl, -, hlt⟩ | ⟨n, -, hn⟩ <;> omega
    rw [h₂.right hother]
    exact hR₁ _ _ (h₁.get hpair (by omega))
  · -- A cell that the second run made.
    have hpair : UpToNew shared₂ p.size p₁.size j i :=
      upToNew_iff.mpr (Or.inr ⟨j - p.size, by omega, by omega⟩)
    have hother : ∀ k, ¬ UpToNew shared₁ p.size p₂.size k j := by
      intro k hk
      rcases upToNew_iff.mp hk with ⟨rfl, -, hlt⟩ | ⟨n, -, hn⟩ <;> omega
    rw [h₁.right hother]
    exact hR₂ _ _ (h₂.get hpair (by omega))

theorem Swapped.live_iff {q q' : Pool α} (h : Swapped R p p₁ p₂ q q') {i j : Nat}
    (hij : swapped p.size (p₁.size - p.size) (p₂.size - p.size) i j) :
    i < q.size ↔ j < q'.size := by
  obtain ⟨hi, hj⟩ := lt_of_swapped hij
  rw [h.size, h.size']
  exact iff_of_true hi hj

end Pool

namespace Heap

/-- The heaps are the same but for the addresses of cells that are not among the old ones: the cells
of the one correspond to those of the other, old cells to themselves, and hold what corresponds. -/
def SameUpTo (old h h' : Heap) : Prop :=
  ∃ p : Pairing, (∀ v, old.Live v → p.Joins v v) ∧
    (∀ v, h.Live v → ∃ v', p.Joins v v') ∧ (∀ v', h'.Live v' → ∃ v, p.Joins v v') ∧
    ∀ v v', p.Joins v v' → (h.Live v ↔ h'.Live v') ∧ p.Hold h h' v v'

variable {h h₁ h₂ h₁₂ h₂₁ : Heap} {roots₁ roots₂ : List Value} {v v' : Value}

theorem Grows.lists_le {h h' : Heap} (hgrows : h.Grows h') : h.lists.size ≤ h'.lists.size :=
  Nat.le_of_not_lt fun hlt => Nat.lt_irrefl _ (hgrows (.collection h'.lists.size) hlt)

theorem Grows.dicts_le {h h' : Heap} (hgrows : h.Grows h') : h.dicts.size ≤ h'.dicts.size :=
  Nat.le_of_not_lt fun hlt => Nat.lt_irrefl _ (hgrows (.dictionary h'.dicts.size) hlt)

theorem Grows.groups_le {h h' : Heap} (hgrows : h.Grows h') : h.groups.size ≤ h'.groups.size :=
  Nat.le_of_not_lt fun hlt => Nat.lt_irrefl _ (hgrows (.groups h'.groups.size) hlt)

theorem swap_joins_self (hv : h.Live v) : (Pairing.swap h h₁ h₂).Joins v v := by
  cases v with
  | collection c => exact .collection (Or.inl ⟨hv, rfl⟩)
  | dictionary c => exact .dictionary (Or.inl ⟨hv, rfl⟩)
  | groups c => exact .groups (Or.inl ⟨hv, rfl⟩)
  | _ => exact .plain rfl

theorem swapped_of_upToNew {shared : Nat → Prop} {n n₁ n₂ i j : Nat} (hle : n ≤ n₁) (hle₂ : n ≤ n₂)
    (hij : UpToNew shared n n₂ i j) (hi : i < n₁) : swapped n (n₁ - n) (n₂ - n) i j := by
  cases hij with
  | old _ hlt _ => exact Or.inl ⟨hlt, rfl⟩
  | new k => exact Or.inr (Or.inl ⟨by omega, by omega, by omega⟩)

theorem swapped_of_upToNew_flip {shared : Nat → Prop} {n n₁ n₂ i j : Nat} (hle : n ≤ n₁)
    (hle₂ : n ≤ n₂) (hij : UpToNew shared n n₁ i j) (hi : i < n₂) :
    swapped n (n₁ - n) (n₂ - n) j i := by
  cases hij with
  | old _ hlt _ => exact Or.inl ⟨hlt, rfl⟩
  | new k => exact Or.inr (Or.inr ⟨by omega, by omega, by omega⟩)

variable (hgrows₁ : h.Grows h₁) (hgrows₂ : h.Grows h₂)

include hgrows₁ hgrows₂

/-- What the first run finds is the same before and after the second one. -/
theorem swap_joins (hv : (Pairing.upToNew h h₂ roots₁).At h₁ v v') :
    (Pairing.swap h h₁ h₂).Joins v v' := by
  cases hv.1 with
  | plain hplain => exact .plain hplain
  | collection hc =>
    exact .collection (swapped_of_upToNew hgrows₁.lists_le hgrows₂.lists_le hc hv.2)
  | dictionary hc =>
    exact .dictionary (swapped_of_upToNew hgrows₁.dicts_le hgrows₂.dicts_le hc hv.2)
  | groups hc => exact .groups (swapped_of_upToNew hgrows₁.groups_le hgrows₂.groups_le hc hv.2)

/-- What the second run finds is the same before and after the first one. -/
theorem swap_joins_flip (hv : (Pairing.upToNew h h₁ roots₂).At h₂ v v') :
    (Pairing.swap h h₁ h₂).Joins v' v := by
  cases hv.1 with
  | plain hplain => exact .plain hplain
  | collection hc =>
    exact .collection (swapped_of_upToNew_flip hgrows₁.lists_le hgrows₂.lists_le hc hv.2)
  | dictionary hc =>
    exact .dictionary (swapped_of_upToNew_flip hgrows₁.dicts_le hgrows₂.dicts_le hc hv.2)
  | groups hc =>
    exact .groups (swapped_of_upToNew_flip hgrows₁.groups_le hgrows₂.groups_le hc hv.2)

/-- The heaps after two runs that share nothing, in one order and in the other. -/
theorem Alike.swap (hclosed : h.Closed) (hunshared : h.Unshared roots₁ roots₂)
    (hh₁ : Alike (.upToNew h h₂ roots₁) h h₂ h₁ h₂₁)
    (hh₂ : Alike (.upToNew h h₁ roots₂) h h₁ h₂ h₁₂) : h.SameUpTo h₁₂ h₂₁ := by
  have hfirst : ∀ v v', (Pairing.upToNew h h₂ roots₁).At h₁ v v' →
      (Pairing.swap h h₁ h₂).Joins v v' := fun _ _ => swap_joins hgrows₁ hgrows₂
  have hsecond : ∀ v v', (Pairing.upToNew h h₁ roots₂).At h₂ v v' →
      (Pairing.swap h h₁ h₂).Joins v' v := fun _ _ => swap_joins_flip hgrows₁ hgrows₂
  have hlists : Pool.Swapped (List.Forall₂ (Pairing.swap h h₁ h₂).Joins) h.lists h₁.lists h₂.lists
      h₁₂.lists h₂₁.lists := by
    refine hh₁.lists.swap hh₂.lists (fun c h₁ h₂ => ?_) hgrows₁.lists_le hgrows₂.lists_le
      (fun _ _ hl => hl.imp hfirst) (fun _ _ hl => .flip (hl.imp hsecond)) fun c hc => ?_
    · cases hunshared _ h₁ h₂
    · exact List.forall₂_same.mpr fun x hx => swap_joins_self (hclosed (.collection c) hc x hx)
  have hdicts : Pool.Swapped (Dict.Alike (Pairing.swap h h₁ h₂).Joins) h.dicts h₁.dicts h₂.dicts
      h₁₂.dicts h₂₁.dicts := by
    refine hh₁.dicts.swap hh₂.dicts (fun c h₁ h₂ => ?_) hgrows₁.dicts_le hgrows₂.dicts_le
      (fun _ _ hd => hd.imp hfirst) (fun _ _ hd => hd.flip hsecond) fun c hc => ?_
    · cases hunshared _ h₁ h₂
    · exact Dict.alike_self fun e he =>
        swap_joins_self (hclosed (.dictionary c) hc _ (List.mem_map_of_mem he))
  have hgroups : Pool.Swapped (Dict.Alike (List.Forall₂ (Pairing.swap h h₁ h₂).Joins)) h.groups
      h₁.groups h₂.groups h₁₂.groups h₂₁.groups := by
    refine hh₁.groups.swap hh₂.groups (fun c h₁ h₂ => ?_) hgrows₁.groups_le hgrows₂.groups_le
      (fun _ _ hd => hd.imp fun _ _ hl => hl.imp hfirst)
      (fun _ _ hd => hd.flip fun _ _ hl => .flip (hl.imp hsecond)) fun c hc => ?_
    · cases hunshared _ h₁ h₂
    · exact Dict.alike_self fun e he => List.forall₂_same.mpr fun x hx =>
        swap_joins_self (hclosed (.groups c) hc x (List.mem_flatMap.mpr ⟨e, he, hx⟩))
  refine ⟨.swap h h₁ h₂, fun v hv => swap_joins_self hv, ?_, ?_, ?_⟩
  · intro v hv
    cases v with
    | collection c =>
      obtain ⟨c', hc⟩ := exists_swapped (Nat.lt_of_lt_of_eq hv hlists.size)
      exact ⟨.collection c', .collection hc⟩
    | dictionary c =>
      obtain ⟨c', hc⟩ := exists_swapped (Nat.lt_of_lt_of_eq hv hdicts.size)
      exact ⟨.dictionary c', .dictionary hc⟩
    | groups c =>
      obtain ⟨c', hc⟩ := exists_swapped (Nat.lt_of_lt_of_eq hv hgroups.size)
      exact ⟨.groups c', .groups hc⟩
    | _ => exact ⟨_, .plain rfl⟩
  · intro v hv
    cases v with
    | collection c =>
      obtain ⟨c', hc⟩ := exists_swapped_right (Nat.lt_of_lt_of_eq hv hlists.size')
      exact ⟨.collection c', .collection hc⟩
    | dictionary c =>
      obtain ⟨c', hc⟩ := exists_swapped_right (Nat.lt_of_lt_of_eq hv hdicts.size')
      exact ⟨.dictionary c', .dictionary hc⟩
    | groups c =>
      obtain ⟨c', hc⟩ := exists_swapped_right (Nat.lt_of_lt_of_eq hv hgroups.size')
      exact ⟨.groups c', .groups hc⟩
    | _ => exact ⟨_, .plain rfl⟩
  · intro v v' hv
    cases hv with
    | plain hplain =>
      exact ⟨iff_of_true (live_of_plain hplain) (live_of_plain hplain), .plain hplain⟩
    | collection hc => exact ⟨hlists.live_iff hc, .collection (hlists.get hc)⟩
    | dictionary hc => exact ⟨hdicts.live_iff hc, .dictionary (hdicts.get hc)⟩
    | groups hc => exact ⟨hgroups.live_iff hc, .groups (hgroups.get hc)⟩

end Heap

/-! ### Delayed blocks -/

/-- Two computations, each of which does the same after the other one as before it. -/
theorem rel_bind_comm {α β γ δ : Type} {x : Option α} {y : Option β} {f : α → Option γ}
    {g : β → Option δ} {R : α → β → γ → Prop} {S : β → α → δ → Prop} {T : γ → δ → Prop}
    (hf : ∀ a, x = some a → Option.Rel (R a) y (f a))
    (hg : ∀ b, y = some b → Option.Rel (S b) x (g b))
    (hT : ∀ a b c d, R a b c → S b a d → T c d) : Option.Rel T (x.bind f) (y.bind g) := by
  cases x with
  | none =>
    cases y with
    | none => exact .none
    | some b =>
      rcases rel_eq_or (hg b rfl) with ⟨-, hnone⟩ | ⟨a, d, ha, -⟩
      · rw [Option.bind_some, hnone]
        exact .none
      · cases ha
  | some a =>
    cases y with
    | none =>
      rcases rel_eq_or (hf a rfl) with ⟨-, hnone⟩ | ⟨b, c, hb, -⟩
      · rw [Option.bind_some, hnone]
        exact .none
      · cases hb
    | some b =>
      rcases rel_eq_or (hf a rfl) with ⟨hb, -⟩ | ⟨_, c, ⟨⟩, hc, hR⟩
      · cases hb
      · rcases rel_eq_or (hg b rfl) with ⟨ha, -⟩ | ⟨_, d, ⟨⟩, hd, hS⟩
        · cases ha
        · rw [Option.bind_some, Option.bind_some, hc, hd]
          exact .some (hT a b c d hR hS)

namespace DelayedBlock

open Statement (AllStandard runAll runAll_alike)

variable {limit : Nat} {b b₁ b₂ : DelayedBlock} {q q' : Queue DelayedBlock} {w w' : World}

/-- Takes two tasks out of the queue, one after the other, and runs them. -/
def fireBoth (limit : Nat) (t₁ t₂ : Task DelayedBlock) (q : Queue DelayedBlock) (w : World) :
    Option (Queue DelayedBlock × World) :=
  (fire limit t₁ (q.remove t₁.id) w).bind fun r => fire limit t₂ (r.1.remove t₂.id) r.2

theorem fire_eq (limit : Nat) (t : Task DelayedBlock) (q : Queue DelayedBlock) (w : World) :
    fire limit t q w = (runAll limit t.payload.body (t.payload.start q w)).map fun e =>
      (e.2.queue.getD q, e.2.world) := by
  unfold fire
  dsimp only
  cases runAll limit t.payload.body (t.payload.start q w) <;> rfl

/-- The worlds are those after two runs of the block that are alike. -/
def WorldsAlike (b : DelayedBlock) (w w' : World) (r r' : Queue DelayedBlock × World) : Prop :=
  Heap.Alike (.upToNew w.heap w'.heap b.vars.values) w.heap w'.heap r.2.heap r'.2.heap ∧
    w.heap.Grows r.2.heap

/-- A block runs alike in worlds that agree on what its variables reach. -/
theorem fire_alike {t : Task DelayedBlock} (ht : AllStandard t.payload.body)
    (hagree : w.heap.AgreeOn w'.heap t.payload.vars.values) (limit : Nat)
    (q q' : Queue DelayedBlock) :
    Option.Rel (t.payload.WorldsAlike w w') (fire limit t q w) (fire limit t q' w') := by
  rw [fire_eq, fire_eq]
  have halike := Machine.alike_of_agree (t.payload.start q w) (t.payload.start q' w') rfl rfl rfl
    hagree
  exact rel_map (runAll_alike _ _ _ limit ht halike) fun _ _ hends =>
    ⟨hends.alike.world.heap, hends.grows⟩

/-- What the variables of another block reach is the same after a block that shares nothing with
it. -/
theorem agreeOn_of_fire {t : Task DelayedBlock} (ht : AllStandard t.payload.body)
    (hown : w.heap.AgreeOn w.heap t.payload.vars.values)
    (hother : w.heap.AgreeOn w.heap b.vars.values)
    (hunshared : w.heap.Unshared t.payload.vars.values b.vars.values)
    {r : Queue DelayedBlock × World} (hfire : fire limit t q w = some r) :
    w.heap.AgreeOn r.2.heap b.vars.values := by
  have hself := fire_alike ht hown limit q q
  rw [hfire] at hself
  cases hself with
  | some hr =>
    exact hother.of_unshared hunshared hr.2 fun v hlive hv => hr.1.frame_left hlive hv

/-- **Blocks that share nothing can run in either order.** -/
theorem fireBoth_comm {t₁ t₂ : Task DelayedBlock} (h₁ : AllStandard t₁.payload.body)
    (h₂ : AllStandard t₂.payload.body) (hclosed : w.heap.Closed)
    (hlive₁ : ∀ v ∈ t₁.payload.vars.values, w.heap.Live v)
    (hlive₂ : ∀ v ∈ t₂.payload.vars.values, w.heap.Live v)
    (hunshared : w.heap.Unshared t₁.payload.vars.values t₂.payload.vars.values) :
    Option.Rel (fun r r' => w.heap.SameUpTo r.2.heap r'.2.heap)
      (fireBoth limit t₁ t₂ q w) (fireBoth limit t₂ t₁ q w) := by
  have hown₁ := hclosed.agreeOn hlive₁
  have hown₂ := hclosed.agreeOn hlive₂
  have hunshared' : w.heap.Unshared t₂.payload.vars.values t₁.payload.vars.values :=
    fun v hv hv' => hunshared v hv' hv
  have hsecond : ∀ r₁, fire limit t₁ (q.remove t₁.id) w = some r₁ →
      Option.Rel (t₂.payload.WorldsAlike w r₁.2) (fire limit t₂ (q.remove t₂.id) w)
        (fire limit t₂ (r₁.1.remove t₂.id) r₁.2) :=
    fun _ hr₁ => fire_alike h₂ (agreeOn_of_fire h₁ hown₁ hown₂ hunshared hr₁) limit _ _
  have hfirst : ∀ r₂, fire limit t₂ (q.remove t₂.id) w = some r₂ →
      Option.Rel (t₁.payload.WorldsAlike w r₂.2) (fire limit t₁ (q.remove t₁.id) w)
        (fire limit t₁ (r₂.1.remove t₁.id) r₂.2) :=
    fun _ hr₂ => fire_alike h₁ (agreeOn_of_fire h₂ hown₂ hown₁ hunshared' hr₂) limit _ _
  refine rel_bind_comm hsecond hfirst ?_
  intro r₁ r₂ r₁₂ r₂₁ hr₂ hr₁
  exact Heap.Alike.swap hr₁.2 hr₂.2 hclosed hunshared hr₁.1 hr₂.1

end DelayedBlock

end WorldScript
