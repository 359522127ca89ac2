import WorldScript.Proofs.Compile.WellPlaced
import WorldScript.Proofs.Run.Frames
import WorldScript.Proofs.Run.Points

/-! # How runs end

A `return` and an error end everything around them. A `break` and a `continue` end what is between
them and the loop or switch that they are meant for, and the compiler sees to it that there is one.
A sequence all of whose paths count as returning ends normally in one way only: some switch on its
way, which counts as returning itself, is left by a `break`.

* `Point.runAll_of_leads`: a final signal goes all the way up.
* `Statement.jumps_meant`: no `break` and no `continue` leaves the statements it is meant for.
* `Statement.exists_leftByBreak`: the one way around a `return`. -/

namespace WorldScript

/-- The signal ends the run of the whole program. -/
def Signal.Final : Signal → Prop
  | .returned => True
  | .failed _ => True
  | _ => False

theorem Signal.Final.ne_normal {signal : Signal} (h : signal.Final) : signal ≠ .normal := by
  rintro rfl
  exact h

theorem Signal.final_returned : Signal.returned.Final := trivial

namespace Statement

variable {limit : Nat} {s : Statement} {signal : Signal}

/-! ### Final signals -/

theorem afterBlock_final (s : Statement) (h : signal.Final) : s.afterBlock signal = .pass := by
  cases signal with
  | returned => cases s <;> rfl
  | failed e => cases s <;> rfl
  | _ => cases h

/-- What the turns end with, whatever comes before. -/
theorem turns_of_turnAt {n : Nat} {stage stage' : Stage} {m m' : Machine} {r : Option Ending}
    (hat : TurnAt limit s n stage m stage' m') (h : ∀ k, s.turns limit (k + 1) stage' m' = r) :
    s.turns limit n stage m = r := by
  induction hat with
  | here => exact h _
  | next hturn hrun hafter _ ih =>
    rw [turns, hturn]
    dsimp only
    rw [hrun]
    dsimp only
    rw [hafter]
    exact ih h

theorem run_of_comesTo {stage : Stage} {m m' : Machine} {r : Option Ending}
    (hcomes : s.ComesTo limit m stage m') (h : ∀ k, s.turns limit (k + 1) stage m' = r) :
    s.run limit m = r := by
  obtain ⟨first, m₀, hstart, hat⟩ := hcomes
  rw [run_eq, hstart]
  exact turns_of_turnAt hat h

theorem runAll_cons_of_ne {rest : List Statement} {m m' : Machine} (hsignal : signal ≠ .normal)
    (h : s.run limit m = some (signal, m')) :
    runAll limit (s :: rest) m = some (signal, m') := by
  rw [runAll, h]
  cases signal with
  | normal => exact absurd rfl hsignal
  | _ => rfl

theorem runAll_cons_of_normal {rest : List Statement} {m m' : Machine}
    (h : s.run limit m = some (.normal, m')) :
    runAll limit (s :: rest) m = runAll limit rest m' := by
  rw [runAll, h]

end Statement

namespace Point

variable {limit : Nat} {P Q : Point} {signal : Signal} {m : Machine}

theorem runAll_of_follows (h : P.Follows limit Q) (hfinal : signal.Final)
    (hrun : Statement.runAll limit Q.rest Q.machine = some (signal, m)) :
    ∃ m', Statement.runAll limit P.rest P.machine = some (signal, m') := by
  cases h with
  | past hpast =>
    refine ⟨m, ?_⟩
    rw [Statement.runAll_cons_of_normal hpast]
    exact hrun
  | @into p s rest m₀ inside e henters =>
    obtain ⟨stage, stage', m₁, m₂, hcomes, hturn, hopen⟩ := henters
    have hentry : e.run limit m₂ = some (signal, { m with vars := m.vars.pop }) := by
      unfold Entry.run
      rw [hopen]
      show Option.map _ (Statement.runAll limit e.body inside) = _
      rw [hrun]
      rfl
    refine ⟨{ m with vars := m.vars.pop }, ?_⟩
    refine Statement.runAll_cons_of_ne hfinal.ne_normal (Statement.run_of_comesTo hcomes ?_)
    intro k
    rw [Statement.turns, hturn]
    dsimp only
    rw [hentry]
    dsimp only
    rw [Statement.afterBlock_final s hfinal]

/-- A final signal at some point of a run is that of the whole run. -/
theorem runAll_of_leads (h : P.Leads limit Q) (hfinal : signal.Final)
    (hrun : Statement.runAll limit Q.rest Q.machine = some (signal, m)) :
    ∃ m', Statement.runAll limit P.rest P.machine = some (signal, m') := by
  induction h generalizing m with
  | refl => exact ⟨m, hrun⟩
  | tail _ hstep ih =>
    obtain ⟨m', hrun'⟩ := runAll_of_follows hstep hfinal hrun
    exact ih hrun'

end Point

/-! ### What a statement itself signals -/

/-- The end is the normal one or an error. -/
def Machine.PlainEnd (ending : Ending) : Prop := ending.1 = .normal ∨ ∃ e, ending.1 = .failed e

namespace Machine

variable {m : Machine} {line : Nat} {name : String}

theorem plainEnd_done (m : Machine) : PlainEnd m.done := Or.inl rfl

theorem plainEnd_fail (m : Machine) (line : Nat) (fault : RunFault) :
    PlainEnd (m.fail line fault) := Or.inr ⟨_, rfl⟩

theorem plainEnd_store (m : Machine) (line : Nat) (name : String) (v : Value) :
    PlainEnd (m.store line name v) :=
  store_cases (fun _ _ => plainEnd_done _) (fun _ => plainEnd_fail _ _ _)

theorem plainEnd_withValue {e : Checked} {go : Value → Machine → Ending}
    (h : ∀ v m', PlainEnd (go v m')) : PlainEnd (m.withValue line e go) :=
  withValue_cases (fun v m' _ => h v m') (fun _ _ _ => plainEnd_fail _ _ _)

theorem plainEnd_withVariable {go : Value → Ending} (h : ∀ v, PlainEnd (go v)) :
    PlainEnd (m.withVariable line name go) :=
  withVariable_cases (fun v _ => h v) (fun _ => plainEnd_fail _ _ _)

theorem plainEnd_introduce (m : Machine) (line : Nat) (name : String) (type : Ty) (v : Value) :
    PlainEnd (m.introduce line name type v) := by
  unfold introduce
  split
  · exact plainEnd_done _
  · exact plainEnd_fail _ _ _

theorem plainEnd_declare (m : Machine) (line : Nat) (name : String) (type : Ty)
    (initial : Option Checked) : PlainEnd (m.declare line name type initial) := by
  cases initial with
  | none => exact plainEnd_introduce _ _ _ _ _
  | some e => exact plainEnd_withValue fun v m' => plainEnd_introduce m' line name type v

theorem plainEnd_compound (m : Machine) (line : Nat) (name : String) (op : CompoundOp)
    (value : Checked) : PlainEnd (m.compound line name op value) := by
  refine plainEnd_withValue fun v m' => plainEnd_withVariable fun current => ?_
  dsimp only
  split
  · split
    · exact plainEnd_store _ _ _ _
    · exact plainEnd_fail _ _ _
  · exact plainEnd_store _ _ _ _
  · exact plainEnd_done _
  · exact plainEnd_done _
  · exact plainEnd_done _
  · exact plainEnd_fail _ _ _

theorem plainEnd_change (m : Machine) (line : Nat) (name : String) (c : Change) :
    PlainEnd (m.change line name c) := by
  unfold change
  split
  · exact plainEnd_fail _ _ _
  · refine plainEnd_withVariable fun target => ?_
    exact applyChange_cases (fun _ => plainEnd_done _) (fun _ => plainEnd_store _ _ _ _)
      fun _ => plainEnd_fail _ _ _

theorem plainEnd_delay (m : Machine) (line : Nat) (duration : Checked) (body : List Statement) :
    PlainEnd (m.delay line duration body) := by
  refine plainEnd_withValue fun v m' => ?_
  dsimp only
  split
  · split
    · split
      · exact plainEnd_fail _ _ _
      · exact plainEnd_done _
    · exact plainEnd_fail _ _ _
  · exact plainEnd_fail _ _ _

/-- A `return` ends with its signal, or with an error. -/
theorem returnWith_end (m : Machine) (line : Nat) (value : Option Checked) :
    (m.returnWith line value).1 = .returned ∨ ∃ e, (m.returnWith line value).1 = .failed e := by
  cases value with
  | none => exact Or.inl rfl
  | some e =>
    refine withValue_cases (P := fun ending => ending.1 = .returned ∨ ∃ e, ending.1 = .failed e)
      ?_ ?_
    · intro v m' _
      split
      · exact Or.inl rfl
      · exact Or.inr ⟨_, rfl⟩
    · intro err m' _
      exact Or.inr ⟨_, rfl⟩

end Machine

namespace Statement

variable {limit : Nat} {s : Statement} {m m' : Machine} {signal : Signal} {stage : Stage}
  {ending : Ending}

/-- The statement whose own signal it is. -/
def SignalOf (s : Statement) : Signal → Prop
  | .broke => s = breakOut
  | .continued => s = continueOn
  | .returned => ∃ line value, s = returnWith line value
  | _ => True

theorem signalOf_of_plainEnd (h : Machine.PlainEnd ending) : s.SignalOf ending.1 := by
  rcases h with h | ⟨e, h⟩ <;> rw [h] <;> trivial

theorem start_signal (h : s.start m = .ended ending) : s.SignalOf ending.1 := by
  cases s with
  | declare line name type initial =>
    cases h
    exact signalOf_of_plainEnd (m.plainEnd_declare line name type initial)
  | assign line name value =>
    cases h
    refine signalOf_of_plainEnd (Machine.plainEnd_withValue ?_)
    exact fun v m' => m'.plainEnd_store line name v
  | compound line name op value =>
    cases h
    exact signalOf_of_plainEnd (m.plainEnd_compound line name op value)
  | change line name c =>
    cases h
    exact signalOf_of_plainEnd (m.plainEnd_change line name c)
  | call line e =>
    cases h
    exact signalOf_of_plainEnd (Machine.plainEnd_withValue fun _ m' => m'.plainEnd_done)
  | delay line duration body =>
    cases h
    exact signalOf_of_plainEnd (m.plainEnd_delay line duration body)
  | breakOut =>
    cases h
    rfl
  | continueOn =>
    cases h
    rfl
  | returnWith line value =>
    cases h
    rcases m.returnWith_end line value with h | h
    · rw [h]
      exact ⟨line, value, rfl⟩
    · exact signalOf_of_plainEnd (Or.inr h)
  | forCount line name count body =>
    simp only [start] at h
    split at h
    · cases h
    all_goals
      cases h
      trivial
  | forEach line name element items body =>
    simp only [start] at h
    split at h
    · cases h
    all_goals
      cases h
      trivial
  | switch line value cases otherwise =>
    simp only [start] at h
    split at h
    · cases h
    · cases h
      trivial
  | ifChain line arms otherwise => cases h
  | whileLoop line test body => cases h

/-- A turn ends a statement normally or with an error. -/
theorem turn_plainEnd (h : s.turn stage m = .ended ending) : Machine.PlainEnd ending := by
  have hturn := s.turnsTo_turn stage m
  rw [h] at hturn
  cases hturn with
  | choice hchooses => exact hchooses.signal
  | ends => exact m.plainEnd_done

theorem refuse_plain (e : Entry) : Machine.PlainEnd (e.refuse, m) := by
  unfold Entry.refuse
  split
  · exact Or.inl rfl
  · exact Or.inr ⟨_, rfl⟩

/-- A sequence that begins with a `return` ends there. -/
theorem runAll_returnWith (limit line : Nat) (value : Option Checked) (rest : List Statement)
    (m : Machine) : ∃ signal m', signal.Final ∧
      runAll limit (returnWith line value :: rest) m = some (signal, m') := by
  have hrun : (returnWith line value).run limit m = some (m.returnWith line value) := rfl
  rcases hend : m.returnWith line value with ⟨signal, m'⟩
  have hfinal : signal.Final := by
    have hends := m.returnWith_end line value
    rw [hend] at hends
    rcases hends with h | ⟨e, h⟩
    · rw [show signal = .returned from h]
      trivial
    · rw [show signal = .failed e from h]
      trivial
  rw [hend] at hrun
  exact ⟨signal, m', hfinal, runAll_cons_of_ne hfinal.ne_normal hrun⟩

/-! ### Jumps -/

/-- There is a statement around the place that the jump is meant for. -/
def Meant (ctx : Context) : Signal → Prop
  | .broke => ctx.inLoop = true ∨ ctx.inSwitch = true
  | .continued => ctx.inLoop = true
  | _ => True

theorem meant_of_plainEnd {ctx : Context} (h : Machine.PlainEnd ending) : Meant ctx ending.1 := by
  rcases h with h | ⟨e, h⟩ <;> rw [h] <;> trivial

theorem meant_of_signalOf {p : Place} (hs : s.WellPlaced p)
    (hstrict : p.context.settings.strictJumps = true) (h : s.SignalOf signal) :
    Meant p.context signal := by
  cases signal with
  | broke =>
    cases h
    exact hs hstrict
  | continued =>
    cases h
    exact hs hstrict
  | _ => trivial

/-- A jump that a statement passes on from a block is meant for something around the statement. -/
theorem meant_of_pass {p : Place} (hpass : s.afterBlock signal = .pass)
    (h : Meant (p.inside s).context signal) : Meant p.context signal := by
  cases signal with
  | broke =>
    cases s with
    | ifChain line arms otherwise => exact h
    | forCount _ _ _ _ => cases hpass
    | forEach _ _ _ _ _ => cases hpass
    | whileLoop _ _ _ => cases hpass
    | switch _ _ _ _ => cases hpass
    | delay _ _ _ => rcases h with h | h <;> cases h
    | _ => exact h
  | continued =>
    cases s with
    | forCount _ _ _ _ => cases hpass
    | forEach _ _ _ _ _ => cases hpass
    | whileLoop _ _ _ => cases hpass
    | delay _ _ _ => cases h
    | _ => exact h
  | _ => trivial

theorem strictJumps_inside (p : Place) (s : Statement) :
    (p.inside s).context.settings = p.context.settings := by
  cases s <;> rfl

theorem run_meant {p : Place} (hs : s.WellPlaced p)
    (hstrict : p.context.settings.strictJumps = true)
    (hblocks : ∀ body ∈ s.blocks, ∀ m signal m', runAll limit body m = some (signal, m') →
      Meant (p.inside s).context signal)
    (h : s.run limit m = some (signal, m')) : Meant p.context signal := by
  by_cases hsignal : signal = .normal
  · rw [hsignal]
    trivial
  · rw [run_eq] at h
    cases hstart : s.start m with
    | ended ending =>
      rw [hstart] at h
      cases h
      exact meant_of_signalOf hs hstrict (start_signal hstart)
    | turns stage m₀ =>
      rw [hstart] at h
      obtain ⟨last, m₁, -, hturn | ⟨hpass, e, stage', m₂, hturn, hrun⟩⟩ :=
        signal_of_turns h hsignal
      · exact meant_of_plainEnd (turn_plainEnd hturn)
      · rcases signal_of_entry hrun with ⟨-, hrefuse⟩ | ⟨inside, m₃, -, hbody⟩
        · rw [← hrefuse]
          exact meant_of_plainEnd (refuse_plain (m := m₂) e)
        · exact meant_of_pass hpass (hblocks _ (turn_block hturn).1 inside signal m₃ hbody)

/-- No `break` and no `continue` goes past the statements that it is meant for. -/
theorem jumps_meant (limit : Nat) (l : List Statement) : ∀ p m signal m',
    p.context.settings.strictJumps = true → Everywhere (fun q t => t.WellPlaced q) p l →
    runAll limit l m = some (signal, m') → Meant p.context signal := by
  induction l using sequence_induction with
  | nil =>
    intro p m signal m' _ _ h
    cases h
    trivial
  | cons s rest hblocks ih =>
    intro p m signal m' hstrict hall h
    have hinside : ∀ body ∈ s.blocks, ∀ m signal m', runAll limit body m = some (signal, m') →
        Meant (p.inside s).context signal := by
      intro body hbody m signal m' hrun
      refine hblocks body hbody _ m signal m' ?_ (hall.block hbody) hrun
      rw [strictJumps_inside]
      exact hstrict
    simp only [runAll] at h
    split at h
    · cases h
    · rename_i m₁ hrun
      exact ih (p.after s) m₁ signal m' hstrict hall.tail h
    · rename_i hrun
      cases h
      exact run_meant hall.head hstrict hinside hrun

/-! ### Sequences that count as returning -/

/-- A switch that counts as returning is left by a `break` in one of its sections. -/
def LeftByBreak (limit : Nat) (s : Statement) (m : Machine) : Prop :=
  s.returns = true ∧ (∃ line value cases otherwise, s = switch line value cases otherwise) ∧
    ∃ e inside m', s.Enters limit m e inside ∧ runAll limit e.body inside = some (.broke, m')

/-- The run from a point comes to a switch that counts as returning and is left by a `break`. -/
def ComesToBreak (limit : Nat) (P : Point) : Prop :=
  ∃ q s rest m, P.Leads limit ⟨q, s :: rest, m⟩ ∧ s.LeftByBreak limit m

theorem ComesToBreak.of_follows {P Q : Point} (h : P.Follows limit Q) (hQ : ComesToBreak limit Q) :
    ComesToBreak limit P := by
  obtain ⟨q, s, rest, m, hleads, hleft⟩ := hQ
  exact ⟨q, s, rest, m, .head h hleads, hleft⟩

theorem sectionsReturn_iff {sections : List Section} :
    sectionsReturn sections = true ↔ ∀ c ∈ sections, returnsAll c.body = true := by
  induction sections with
  | nil => simp [sectionsReturn]
  | cons c rest ih =>
    obtain ⟨line, test, body⟩ := c
    simp [sectionsReturn, ih, Section.body]

theorem branches_return {sections : List Section} {otherwise body : List Statement}
    (h : (returnsAll otherwise && sectionsReturn sections) = true)
    (hbody : body ∈ sections.map Section.body ++ (some otherwise).toList) :
    returnsAll body = true := by
  rw [Bool.and_eq_true, sectionsReturn_iff] at h
  rcases List.mem_append.mp hbody with hbody | hbody
  · obtain ⟨c, hc, rfl⟩ := List.mem_map.mp hbody
    exact h.2 c hc
  · rw [List.mem_singleton.mp hbody]
    exact h.1

/-- A statement with blocks that counts as returning is an `if` or a `switch`. -/
theorem returns_turns (hreturns : s.returns = true) (hstart : s.start m = .turns stage m') :
    ((∀ limit, stage.bound limit = 1) ∧ ∀ body ∈ s.blocks, returnsAll body = true) ∧
      ((∀ signal, s.afterBlock signal = .pass) ∨
        ∃ line value cases otherwise, s = switch line value cases otherwise) := by
  cases s with
  | ifChain line arms otherwise =>
    cases otherwise with
    | none => cases hreturns
    | some other =>
      cases hstart
      rw [returns] at hreturns
      exact ⟨⟨fun _ => rfl, fun body hbody => branches_return hreturns hbody⟩, Or.inl fun _ => rfl⟩
  | switch line value cases otherwise =>
    cases otherwise with
    | none => cases hreturns
    | some other =>
      rw [returns] at hreturns
      simp only [start] at hstart
      split at hstart
      · cases hstart
        exact ⟨⟨fun _ => rfl, fun body hbody => branches_return hreturns hbody⟩,
          Or.inr ⟨line, value, cases, some other, rfl⟩⟩
      · cases hstart
  | returnWith line value => cases hstart
  | _ => cases hreturns

/-- A choice that leaves no case out runs a block, unless a test fails. -/
theorem Chooses.ne_normal {other : List Statement} {l : List Section}
    (h : Chooses stage (some other) l m (.ended ending)) : ending.1 ≠ .normal := by
  generalize hturn : Turn.ended ending = turn at h
  induction h with
  | fails =>
    cases hturn
    exact fun hf => by cases hf
  | refuses =>
    cases hturn
    exact fun hf => by cases hf
  | skips _ _ ih => exact ih hturn
  | nothing hnone => cases hnone
  | _ => cases hturn

/-- A statement that counts as returning always runs a block. -/
theorem turn_returns (hreturns : s.returns = true) (hstart : s.start m = .turns stage m')
    {m₁ : Machine} (h : s.turn stage m₁ = .ended ending) : ending.1 ≠ .normal := by
  cases s with
  | ifChain line arms otherwise =>
    cases otherwise with
    | none => cases hreturns
    | some other =>
      cases hstart
      have hchooses := chooses_armTurn (some other) arms m₁
      rw [show armTurn (some other) arms m₁ = .ended ending from h] at hchooses
      exact hchooses.ne_normal
  | switch line value cases otherwise =>
    cases otherwise with
    | none => cases hreturns
    | some other =>
      simp only [start] at hstart
      split at hstart
      · rename_i v _ _
        cases hstart
        have hchooses := chooses_caseTurn v (some other) cases m₁
        rw [show caseTurn v (some other) cases m₁ = .ended ending from h] at hchooses
        exact hchooses.ne_normal
      · cases hstart
  | returnWith line value => cases hstart
  | _ => cases hreturns

theorem bound?_of_returns (h : s.returns = true) : s.bound? = none := by
  cases s with
  | forCount _ _ _ _ => cases h
  | forEach _ _ _ _ _ => cases h
  | _ => rfl

/-- A block that begins with no variable always begins. -/
theorem open?_of_binding {e : Entry} (h : e.binding = none) (m : Machine) :
    e.open? m = some { m with vars := m.vars.push } := by
  unfold Entry.open?
  rw [h]

theorem start_returns (hreturns : s.returns = true) (h : s.start m = .ended ending) :
    ending.1 ≠ .normal := by
  cases s with
  | returnWith line value =>
    cases h
    rcases m.returnWith_end line value with h | ⟨e, h⟩ <;> rw [h] <;> exact fun hf => by cases hf
  | switch line value cases otherwise =>
    simp only [start] at h
    split at h
    · cases h
    · cases h
      exact fun hf => by cases hf
  | ifChain line arms otherwise => cases h
  | _ => cases hreturns

/-- A statement that counts as returning ends normally only on the way around a `return`. -/
theorem comesToBreak_of_run {p : Place} {rest : List Statement}
    (hblocks : ∀ body ∈ s.blocks, ∀ p m m', returnsAll body = true →
      runAll limit body m = some (.normal, m') → ComesToBreak limit ⟨p, body, m⟩)
    (hreturns : s.returns = true) (h : s.run limit m = some (.normal, m')) :
    ComesToBreak limit ⟨p, s :: rest, m⟩ := by
  rw [run_eq] at h
  cases hstart : s.start m with
  | ended ending =>
    rw [hstart] at h
    cases h
    exact absurd rfl (start_returns hreturns hstart)
  | turns stage m₀ =>
    obtain ⟨⟨hbound, hall⟩, hkind⟩ := returns_turns hreturns hstart
    rw [hstart, Start.run, hbound] at h
    have hcomes : s.ComesTo limit m stage m₀ := by
      refine ⟨stage, m₀, hstart, ?_⟩
      rw [hbound]
      exact .here
    simp only [turns] at h
    split at h
    · rename_i ending hturn
      cases h
      exact absurd rfl (turn_returns hreturns hstart hturn)
    · rename_i e stage' m₂ hturn
      obtain ⟨hbody, hbinding⟩ := turn_block hturn
      rw [bound?_of_returns hreturns, Option.map_eq_none_iff] at hbinding
      have hopen := open?_of_binding hbinding m₂
      have henters : s.Enters limit m e { m₂ with vars := m₂.vars.push } :=
        ⟨stage, stage', m₀, m₂, hcomes, hturn, hopen⟩
      split at h
      · cases h
      · rename_i signal m₃ hrun
        rcases signal_of_entry hrun with ⟨hnone, -⟩ | ⟨inside, m₄, hinside, hbodyRun⟩
        · rw [hopen] at hnone
          cases hnone
        · rw [hopen] at hinside
          cases hinside
          split at h
          · cases h
          · -- only a switch stops at a signal, and only at a `break`
            rename_i hstop
            rcases hkind with hpass | ⟨line, value, cases, otherwise, rfl⟩
            · rw [hpass] at hstop
              cases hstop
            · cases signal with
              | broke =>
                exact ⟨p, _, rest, m, .refl, hreturns, ⟨line, value, cases, otherwise, rfl⟩,
                  e, _, m₄, henters, hbodyRun⟩
              | _ => cases hstop
          · cases h
            exact .of_follows (.into henters)
              (hblocks _ hbody (p.inside s) _ m₄ (hall _ hbody) hbodyRun)

theorem returnsAll_cons {rest : List Statement} (h : returnsAll (s :: rest) = true) :
    s.returns = true ∨ returnsAll rest = true := by
  cases s with
  | breakOut => cases h
  | continueOn => cases h
  | _ => simpa [returnsAll] using h

/-- A sequence all of whose paths count as returning ends normally only if a switch that counts as
returning is left by a `break`. -/
theorem exists_leftByBreak (limit : Nat) (l : List Statement) : ∀ p m m', returnsAll l = true →
    runAll limit l m = some (.normal, m') → ComesToBreak limit ⟨p, l, m⟩ := by
  induction l using sequence_induction with
  | nil =>
    intro p m m' hreturns _
    cases hreturns
  | cons s rest hblocks ih =>
    intro p m m' hreturns h
    simp only [runAll] at h
    split at h
    · cases h
    · rename_i m₁ hrun
      rcases returnsAll_cons hreturns with hs | hrest
      · exact comesToBreak_of_run hblocks hs hrun
      · exact .of_follows (.past hrun) (ih (p.after s) m₁ m' hrest h)
    · rename_i hother hrun
      cases h
      exact absurd rfl (hother m')

end Statement

end WorldScript
