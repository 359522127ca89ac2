import WorldScript.Proofs.Compile.WellPlaced
import WorldScript.Proofs.Run.Frames
import WorldScript.Proofs.Run.Points

/-! # Invariants of runs

The statements of a program run where the scopes that they were compiled with agree with the
variables; that agreement is kept from point to point. `Kept` says what else has to be shown for an
invariant of the state: that it is kept by the beginning of a statement, by a turn, and by opening
and leaving a block.

* `Kept.runAll`: then it is kept by every run, however it ends.
* `Kept.leads`: and it holds at every point of a run. -/

namespace WorldScript

open Space (Agrees)

variable {slot : Option Ty} {limit : Nat} {p : Place} {s : Statement} {m m' : Machine}

/-! ### Agreement -/

theorem Place.Free.ne_slot {name : String} (h : p.Free name) :
    Text.lower name ≠ Name.returnSlot := Name.ne_slot_of_isReserved h.unreserved

theorem Statement.bodyScope_eq (s : Statement) (scope : Scope) :
    s.bodyScope scope = match s.bound? with
      | none => scope
      | some (name, type) => scope.add name type := by
  cases s <;> rfl

theorem Statement.scopeAfter_eq (s : Statement) (scope : Scope) :
    s.scopeAfter scope = match s.declared? with
      | none => scope
      | some (name, type) => scope.add name type := by
  cases s <;> rfl

theorem free_of_declared? (hs : s.WellPlaced p) {name : String} {type : Ty}
    (h : s.declared? = some (name, type)) : p.Free name := by
  cases s with
  | declare line n t initial =>
    cases h
    exact hs.1
  | _ => cases h

theorem free_of_bound? (hs : s.WellPlaced p) {name : String} {type : Ty}
    (h : s.bound? = some (name, type)) : p.Free name := by
  cases s with
  | forCount line n count body =>
    cases h
    exact hs.1
  | forEach line n element items body =>
    cases h
    exact hs.1
  | _ => cases h

/-- The variable that a statement other than a `return` sets is one of its scope. -/
theorem lookup_of_target? (hs : s.WellPlaced p) {name : String} (h : s.target? = some name)
    (hreturn : ∀ line value, s ≠ .returnWith line value) :
    ∃ type, p.scope.lookup name = some type := by
  cases s with
  | assign line n value =>
    cases h
    exact ⟨_, hs.choose_spec.1⟩
  | compound line n op value =>
    cases h
    exact ⟨_, hs.choose_spec.1⟩
  | change line n c =>
    cases h
    exact ⟨_, hs.choose_spec.1⟩
  | returnWith line value => exact absurd rfl (hreturn line value)
  | _ => cases h

/-- After a statement that ended normally, the scope after it agrees with the variables. -/
theorem agrees_after (hs : s.WellPlaced p) (h : Agrees slot p.scope m.vars)
    (hrun : s.run limit m = some (.normal, m')) : Agrees slot (p.after s).scope m'.vars := by
  have htypes := Statement.run_types hrun
  unfold Statement.RunsTo at htypes
  show Agrees slot (s.scopeAfter p.scope) m'.vars
  rw [s.scopeAfter_eq]
  cases hdeclared : s.declared? with
  | none =>
    rw [hdeclared] at htypes
    exact h.congr htypes
  | some declared =>
    rw [hdeclared] at htypes
    rcases htypes with ⟨hne, -⟩ | ⟨-, v, hdeclare⟩
    · exact absurd rfl hne
    · exact h.declare hdeclare (free_of_declared? hs hdeclared).ne_slot

/-- At the beginning of a block, its scope agrees with the variables. -/
theorem agrees_inside (hs : s.WellPlaced p) (h : Agrees slot p.scope m.vars) {stage stage' : Stage}
    {e : Entry} {inside : Machine} (hturn : s.turn stage m = .block e stage' m')
    (hopen : e.open? m' = some inside) : Agrees slot (p.inside s).scope inside.vars := by
  have hvars : m'.vars = m.vars := by
    have := Statement.vars_turn s stage m
    rw [hturn] at this
    exact this
  have hbound := (Statement.turn_block hturn).2
  show Agrees slot (s.bodyScope p.scope) inside.vars
  rw [s.bodyScope_eq, ← hbound]
  unfold Entry.open? at hopen
  split at hopen
  · rename_i hnone
    cases hopen
    rw [hnone]
    show Agrees slot p.scope m'.vars.push
    rw [hvars]
    exact h.push
  · rename_i name type v hsome
    simp only [Option.map_eq_some_iff] at hopen
    obtain ⟨vars, hdeclare, rfl⟩ := hopen
    rw [hsome] at hbound ⊢
    rw [hvars] at hdeclare
    exact h.push.declare hdeclare (free_of_bound? hs hbound.symm).ne_slot

/-- Turn by turn the scope of the statement agrees with the variables. -/
theorem agrees_turnAt (h : Agrees slot p.scope m.vars) {n : Nat} {stage stage' : Stage}
    (hat : Statement.TurnAt limit s n stage m stage' m') : Agrees slot p.scope m'.vars := by
  induction hat with
  | here => exact h
  | @next n stage stage' last m m₁ m₂ m₃ e signal hturn hrun hafter _ ih =>
    refine ih (h.congr ?_)
    have hvars := Statement.vars_turn s stage m
    rw [hturn] at hvars
    exact (Statement.entry_types hrun).trans (congrArg Space.types hvars)

theorem agrees_comesTo (h : Agrees slot p.scope m.vars) {stage : Stage}
    (hcomes : s.ComesTo limit m stage m') : Agrees slot p.scope m'.vars := by
  obtain ⟨first, m₀, hstart, hat⟩ := hcomes
  refine agrees_turnAt ?_ hat
  rw [Statement.vars_of_start hstart]
  exact h

/-- However a sequence ends, some scope agrees with the variables that it leaves. -/
theorem agrees_end {l : List Statement} {signal : Signal}
    (hall : Everywhere (fun q t => t.WellPlaced q) p l) (h : Agrees slot p.scope m.vars)
    (hrun : Statement.runAll limit l m = some (signal, m')) :
    ∃ scope, Agrees slot scope m'.vars := by
  induction l generalizing p m with
  | nil =>
    cases hrun
    exact ⟨p.scope, h⟩
  | cons s rest ih =>
    simp only [Statement.runAll] at hrun
    split at hrun
    · cases hrun
    · rename_i m₁ hfirst
      exact ih hall.tail (agrees_after hall.head h hfirst) hrun
    · rename_i hfirst
      cases hrun
      have htypes := Statement.run_types hfirst
      unfold Statement.RunsTo at htypes
      split at htypes
      · exact ⟨p.scope, h.congr htypes⟩
      · rename_i name type hsome
        rcases htypes with ⟨-, hvars⟩ | ⟨-, v, hdeclare⟩
        · exact ⟨p.scope, h.congr (congrArg Space.types hvars)⟩
        · exact ⟨_, h.declare hdeclare (free_of_declared? hall.head hsome).ne_slot⟩

/-! ### The slot for the answer -/

/-- What can be returned at the place is what the slot is for. -/
def Place.Serves (slot : Option Ty) (p : Place) : Prop :=
  p.context.returns.isVoid = false → slot = some p.context.returns

theorem Place.Serves.after {slot : Option Ty} {p : Place} (h : p.Serves slot) (s : Statement) :
    (p.after s).Serves slot := h

theorem Place.Serves.inside {slot : Option Ty} {p : Place} (h : p.Serves slot) (s : Statement) :
    (p.inside s).Serves slot := by
  cases s with
  | delay line duration body =>
    intro hvoid
    cases hvoid
  | _ => exact h

/-! ### Invariants -/

/-- Nothing unsafe is about to run at any point of a run. -/
def SafeFrom (Safe : Statement → Machine → Prop) (limit : Nat) (P : Point) : Prop :=
  ∀ q s rest m, P.Leads limit ⟨q, s :: rest, m⟩ → Safe s m

theorem SafeFrom.follows {Safe : Statement → Machine → Prop} {P Q : Point}
    (h : SafeFrom Safe limit P) (hstep : P.Follows limit Q) : SafeFrom Safe limit Q :=
  fun q s rest m hleads => h q s rest m (.head hstep hleads)

theorem SafeFrom.mono {Safe Safe' : Statement → Machine → Prop} {P : Point}
    (h : SafeFrom Safe limit P) (hmono : ∀ s m, Safe s m → Safe' s m) : SafeFrom Safe' limit P :=
  fun q s rest m hleads => hmono s m (h q s rest m hleads)

/-- The invariant is kept by what a statement at a place of the given sort does itself, where that
is safe. What holds of the stages that it comes to is said by `Ready`. -/
structure Kept (P : Place → Statement → Prop) (slot : Option Ty)
    (Safe : Statement → Machine → Prop) (Ready : Statement → Stage → Prop)
    (Inv : Machine → Prop) : Prop where
  placed : ∀ {p s}, P p s → s.WellPlaced p
  ended : ∀ {p s rest m signal m'}, Everywhere P p (s :: rest) → Agrees slot p.scope m.vars →
    Inv m → Safe s m → s.start m = .ended (signal, m') → Inv m'
  begun : ∀ {p s m stage m'}, P p s → Agrees slot p.scope m.vars → Inv m →
    s.start m = .turns stage m' → Inv m' ∧ Ready s stage
  last : ∀ {p s m stage signal m'}, P p s → Agrees slot p.scope m.vars → Inv m → Ready s stage →
    s.turn stage m = .ended (signal, m') → Inv m'
  block : ∀ {p s m stage e stage' m'}, P p s → Agrees slot p.scope m.vars → Inv m →
    Ready s stage → s.turn stage m = .block e stage' m' →
    Inv m' ∧ Ready s stage' ∧ ∀ inside, e.open? m' = some inside → Inv inside
  pop : ∀ {m : Machine}, Inv m → Inv { m with vars := m.vars.pop }

namespace Kept

variable {P : Place → Statement → Prop} {Safe : Statement → Machine → Prop}
  {Ready : Statement → Stage → Prop} {Inv : Machine → Prop}

/-- The invariant is kept by the sequence, wherever it stands. -/
def Through (P : Place → Statement → Prop) (slot : Option Ty) (Safe : Statement → Machine → Prop)
    (Inv : Machine → Prop) (limit : Nat) (l : List Statement) : Prop :=
  ∀ p m signal m', Everywhere P p l → Agrees slot p.scope m.vars → Inv m →
    SafeFrom Safe limit ⟨p, l, m⟩ → Statement.runAll limit l m = some (signal, m') → Inv m'

variable (hk : Kept P slot Safe Ready Inv) {rest : List Statement}
  (hall : Everywhere P p (s :: rest))

include hk hall

/-- One block, from the turn that chooses it to the frame being left. -/
theorem entry (hthrough : ∀ body ∈ s.blocks, Through P slot Safe Inv limit body)
    (h : Agrees slot p.scope m.vars) (hinv : Inv m) {stage stage' : Stage} {e : Entry}
    {m₀ m₁ m₂ : Machine} {signal : Signal} (hready : Ready s stage)
    (hsafe : SafeFrom Safe limit ⟨p, s :: rest, m₀⟩) (hcomes : s.ComesTo limit m₀ stage m)
    (hturn : s.turn stage m = .block e stage' m₁) (hrun : e.run limit m₁ = some (signal, m₂)) :
    Inv m₂ := by
  obtain ⟨hinv₁, -, hinside⟩ := hk.block hall.head h hinv hready hturn
  have hbody := (Statement.turn_block hturn).1
  unfold Entry.run at hrun
  split at hrun
  · cases hrun
    exact hinv₁
  · rename_i inside hopen
    simp only [Option.map_eq_some_iff] at hrun
    obtain ⟨⟨signal', m₃⟩, hrun, heq⟩ := hrun
    cases heq
    have hinto : Point.Follows limit ⟨p, s :: rest, m₀⟩ ⟨p.inside s, e.body, inside⟩ :=
      .into ⟨stage, stage', m, m₁, hcomes, hturn, hopen⟩
    exact hk.pop (hthrough _ hbody _ _ _ _ (hall.block hbody)
      (agrees_inside (hk.placed hall.head) h hturn hopen) (hinside inside hopen)
      (hsafe.follows hinto) hrun)

/-- The turns of a statement that has come to the given stage and state. -/
theorem turns (hthrough : ∀ body ∈ s.blocks, Through P slot Safe Inv limit body) {n : Nat}
    {stage : Stage} {signal : Signal} {m₀ : Machine}
    (hsafe : SafeFrom Safe limit ⟨p, s :: rest, m₀⟩)
    (hcomes : ∀ stage' m'', Statement.TurnAt limit s n stage m stage' m'' →
      s.ComesTo limit m₀ stage' m'')
    (h : Agrees slot p.scope m.vars) (hinv : Inv m) (hready : Ready s stage)
    (hturns : s.turns limit n stage m = some (signal, m')) : Inv m' := by
  induction n generalizing stage m with
  | zero => cases hturns
  | succ n ih =>
    simp only [Statement.turns] at hturns
    split at hturns
    · rename_i ending hturn
      cases hturns
      exact hk.last hall.head h hinv hready hturn
    · rename_i e stage' m₁ hturn
      split at hturns
      · cases hturns
      · rename_i signal' m₂ hrun
        have hinv₂ := hk.entry hall hthrough h hinv hready hsafe (hcomes stage m .here) hturn hrun
        split at hturns
        · rename_i hafter
          exact ih (fun stage'' m'' hat => hcomes stage'' m'' (.next hturn hrun hafter hat))
            (agrees_turnAt h (.next hturn hrun hafter (.here (n := 0)))) hinv₂
            (hk.block hall.head h hinv hready hturn).2.1 hturns
        · cases hturns
          exact hinv₂
        · cases hturns
          exact hinv₂

theorem of_run (hthrough : ∀ body ∈ s.blocks, Through P slot Safe Inv limit body)
    {signal : Signal} (h : Agrees slot p.scope m.vars) (hinv : Inv m)
    (hsafe : SafeFrom Safe limit ⟨p, s :: rest, m⟩)
    (hrun : s.run limit m = some (signal, m')) : Inv m' := by
  rw [Statement.run_eq] at hrun
  cases hstart : s.start m with
  | ended ending =>
    rw [hstart] at hrun
    cases hrun
    exact hk.ended hall h hinv (hsafe p s rest m .refl) hstart
  | turns stage m₀ =>
    rw [hstart] at hrun
    obtain ⟨hinv₀, hready⟩ := hk.begun hall.head h hinv hstart
    refine hk.turns hall hthrough hsafe (fun stage' m'' hat => ⟨stage, m₀, hstart, hat⟩) ?_ hinv₀
      hready hrun
    rw [Statement.vars_of_start hstart]
    exact h

omit hall

theorem through (limit : Nat) (l : List Statement) : Through P slot Safe Inv limit l := by
  induction l using Statement.sequence_induction with
  | nil =>
    intro p m signal m' _ _ hinv _ hrun
    cases hrun
    exact hinv
  | cons s rest hthrough ih =>
    intro p m signal m' hall h hinv hsafe hrun
    simp only [Statement.runAll] at hrun
    split at hrun
    · cases hrun
    · rename_i m₁ hfirst
      have hinv₁ := hk.of_run hall hthrough h hinv hsafe hfirst
      exact ih _ m₁ signal m' hall.tail (agrees_after (hk.placed hall.head) h hfirst) hinv₁
        (hsafe.follows (.past hfirst)) hrun
    · rename_i ending hfirst
      cases hrun
      exact hk.of_run hall hthrough h hinv hsafe hfirst

/-- The invariant is kept by every run, however it ends. -/
theorem runAll {l : List Statement} {signal : Signal} (hall : Everywhere P p l)
    (h : Agrees slot p.scope m.vars) (hinv : Inv m) (hsafe : SafeFrom Safe limit ⟨p, l, m⟩)
    (hrun : Statement.runAll limit l m = some (signal, m')) : Inv m' :=
  hk.through limit l p m signal m' hall h hinv hsafe hrun

include hall

/-- The turns of a statement keep the invariant, up to where they come. -/
theorem turnAt {n : Nat} {stage stage' : Stage} {m₀ : Machine}
    (hsafe : SafeFrom Safe limit ⟨p, s :: rest, m₀⟩)
    (hcomes : ∀ stage' m'', Statement.TurnAt limit s n stage m stage' m'' →
      s.ComesTo limit m₀ stage' m'')
    (h : Agrees slot p.scope m.vars) (hinv : Inv m) (hready : Ready s stage)
    (hat : Statement.TurnAt limit s n stage m stage' m') : Inv m' ∧ Ready s stage' := by
  induction hat with
  | here => exact ⟨hinv, hready⟩
  | @next n stage stage' last m m₁ m₂ m₃ e signal hturn hrun hafter _ ih =>
    have hinv₂ := hk.entry hall (fun body _ => hk.through limit body) h hinv hready hsafe
      (hcomes stage m .here) hturn hrun
    exact ih (fun stage'' m'' hat => hcomes stage'' m'' (.next hturn hrun hafter hat))
      (agrees_turnAt h (.next hturn hrun hafter (.here (n := 0)))) hinv₂
      (hk.block hall.head h hinv hready hturn).2.1

theorem comesTo {stage : Stage} (h : Agrees slot p.scope m.vars) (hinv : Inv m)
    (hsafe : SafeFrom Safe limit ⟨p, s :: rest, m⟩) (hcomes : s.ComesTo limit m stage m') :
    Inv m' ∧ Ready s stage := by
  obtain ⟨first, m₀, hstart, hat⟩ := hcomes
  obtain ⟨hinv₀, hready⟩ := hk.begun hall.head h hinv hstart
  refine hk.turnAt hall hsafe (fun stage' m'' hat => ⟨first, m₀, hstart, hat⟩) ?_ hinv₀ hready hat
  rw [Statement.vars_of_start hstart]
  exact h

omit hk hall

/-- What holds at the points of a run: the statements that are left are of the given sort, the scope
agrees with the variables, and the state satisfies the invariant. -/
structure Good (P : Place → Statement → Prop) (slot : Option Ty) (Inv : Machine → Prop)
    (Q : Point) : Prop where
  everywhere : Everywhere P Q.place Q.rest
  agrees : Agrees slot Q.place.scope Q.machine.vars
  inv : Inv Q.machine

include hk

theorem follows {Q R : Point} (hQ : Good P slot Inv Q) (hsafe : SafeFrom Safe limit Q)
    (h : Point.Follows limit Q R) : Good P slot Inv R := by
  cases h with
  | past hrun =>
    exact ⟨hQ.everywhere.tail, agrees_after (hk.placed hQ.everywhere.head) hQ.agrees hrun,
      hk.of_run hQ.everywhere (fun body _ => hk.through limit body) hQ.agrees hQ.inv hsafe hrun⟩
  | into henters =>
    obtain ⟨stage, stage', m₁, m₂, hcomes, hturn, hopen⟩ := henters
    have hagrees := agrees_comesTo hQ.agrees hcomes
    obtain ⟨hinv, hready⟩ := hk.comesTo hQ.everywhere hQ.agrees hQ.inv hsafe hcomes
    refine ⟨hQ.everywhere.block (Statement.turn_block hturn).1,
      agrees_inside (hk.placed hQ.everywhere.head) hagrees hturn hopen, ?_⟩
    exact (hk.block hQ.everywhere.head hagrees hinv hready hturn).2.2 _ hopen

/-- The invariant holds at every point of a run in which everything is safe. -/
theorem leads {Q R : Point} (hQ : Good P slot Inv Q) (hsafe : SafeFrom Safe limit Q)
    (h : Point.Leads limit Q R) : Good P slot Inv R := by
  induction h using Relation.ReflTransGen.head_induction_on with
  | refl => exact hQ
  | head hstep _ ih => exact ih (hk.follows hQ hsafe hstep) (hsafe.follows hstep)

end Kept

end WorldScript
