import WorldScript.Proofs.Compile.WellPlaced
import WorldScript.Proofs.Run.Frames
import WorldScript.Proofs.Run.Points

/-! # Errors of statements

That a run never ends with an error of some sort is shown of what each statement itself does.
`Fails` lists the ways in which a statement can fail at its beginning; its turns can only fail in one
of the tests. The lemmas are about all sorts of errors: `Bad` tells those that are not to happen.

* `Statement.start_avoids`, `Statement.turn_avoids`: the statements for a beginning and for a turn.
* `Statement.raises_avoids`: what a statement itself signals, from its beginning and its turns. -/

namespace WorldScript

variable {Bad : RunError → Prop}

/-- The signal is not that of a bad error. -/
def Signal.Avoids (Bad : RunError → Prop) (signal : Signal) : Prop :=
  ∀ e, signal = .failed e → ¬ Bad e

theorem Signal.avoids_of_ne {signal : Signal} (h : ∀ e, signal ≠ .failed e) : signal.Avoids Bad :=
  fun e he => absurd he (h e)

namespace Machine

variable {m m' : Machine} {e : Checked} {line : Nat} {name : String} {ending : Ending}

/-- The end of a statement is not a bad error. -/
def Avoids (Bad : RunError → Prop) (ending : Ending) : Prop := ending.1.Avoids Bad

theorem avoids_done (m : Machine) : Avoids Bad m.done := Signal.avoids_of_ne fun _ h => by cases h

theorem avoids_returned (m : Machine) : Avoids Bad (.returned, m) :=
  Signal.avoids_of_ne fun _ h => by cases h

theorem avoids_fail {fault : RunFault} (h : ¬ Bad (.atLine line fault)) :
    Avoids Bad (m.fail line fault) := by
  rintro err ⟨⟩
  exact h

theorem avoids_withValue {go : Value → Machine → Ending}
    (herr : ∀ err m', m.eval e = (.error err, m') → ¬ Bad (.atLine line (.eval err)))
    (hgo : ∀ v m', m.eval e = (.ok v, m') → Avoids Bad (go v m')) :
    Avoids Bad (m.withValue line e go) :=
  withValue_cases hgo fun err m' heval => avoids_fail (herr err m' heval)

theorem keyText_eq_error {key : Value} {fault : RunFault} (h : m.keyText key = .error fault) :
    ∃ shown, fault = .keyNotText shown := by
  unfold keyText at h
  split at h
  · cases h
  · cases h
    exact ⟨_, rfl⟩

theorem place_eq_error {index : Value} {size : Nat} {fault : RunFault}
    (h : m.place index size = .error fault) :
    (∃ n, fault = .outOfRange n size) ∨ ∃ shown, fault = .indexNotNumber shown := by
  unfold place at h
  split at h
  · split at h
    · cases h
    · cases h
      exact Or.inl ⟨_, rfl⟩
  · cases h
    exact Or.inr ⟨_, rfl⟩

theorem avoids_require_keyText {key : Value} {go : String → Ending}
    (hkey : ∀ shown, ¬ Bad (.atLine line (.keyNotText shown))) (hgo : ∀ k, Avoids Bad (go k)) :
    Avoids Bad (m.require line (m.keyText key) go) := by
  refine require_cases (fun k _ => hgo k) fun fault herr => avoids_fail ?_
  obtain ⟨shown, rfl⟩ := keyText_eq_error herr
  exact hkey shown

theorem avoids_require_place {index : Value} {size : Nat} {go : Nat → Ending}
    (hrange : ∀ n, ¬ Bad (.atLine line (.outOfRange n size)))
    (hnumber : ∀ shown, ¬ Bad (.atLine line (.indexNotNumber shown)))
    (hgo : ∀ i, Avoids Bad (go i)) : Avoids Bad (m.require line (m.place index size) go) := by
  refine require_cases (fun i _ => hgo i) fun fault herr => avoids_fail ?_
  rcases place_eq_error herr with ⟨n, rfl⟩ | ⟨shown, rfl⟩
  · exact hrange n
  · exact hnumber shown

/-- The error of a change is one of its line. -/
theorem applyChange_failed {c : Change} {target : Value} {values : List Value} {err : RunError}
    (h : (m.applyChange line name c target values).1 = .failed err) :
    ∃ fault, err = .atLine line fault := by
  have hfail (m' : Machine) (fault : RunFault) :
      Avoids (fun err => ∀ fault, err ≠ .atLine line fault) (m'.fail line fault) :=
    avoids_fail fun hne => hne fault rfl
  have hends : Avoids (fun err => ∀ fault, err ≠ .atLine line fault)
      (m.applyChange line name c target values) :=
    applyChange_cases (fun _ => avoids_done _)
      (fun _ => store_cases (fun _ _ => avoids_done _) fun _ => hfail _ _) (hfail m)
  exact Classical.byContradiction fun hne => hends err h fun fault heq => hne ⟨fault, heq⟩

/-- If some expressions have no values, then one of them has none. -/
theorem eval_of_values_error {es : List Checked} {err : EvalError}
    (h : m.values es = (.error err, m')) :
    ∃ e, ∃ m₁ : Machine, e ∈ es ∧ m₁.vars = m.vars ∧ m₁.eval e = (.error err, m') := by
  induction es generalizing m with
  | nil => cases h
  | cons e es ih =>
    simp only [values] at h
    split at h
    · rename_i heval
      cases h
      exact ⟨e, m, List.mem_cons_self, rfl, heval⟩
    · rename_i v m₂ heval
      split at h
      · rename_i hmore
        cases h
        obtain ⟨e', m₁, he', hvars, heval'⟩ := ih hmore
        exact ⟨e', m₁, List.mem_cons_of_mem _ he', hvars.trans (vars_of_eval heval), heval'⟩
      · cases h

end Machine

/-! ### Beginnings -/

namespace Space

variable {vars : Space} {name : String} {v : Value}

theorem get?_of_value?_eq_none (h : vars.value? name = none) : vars.get? name = none := by
  rw [value?, Option.map_eq_none_iff] at h
  exact h

theorem get?_of_set?_eq_none (h : vars.set? name v = none) : vars.get? name = none := by
  cases hget : vars.get? name with
  | none => rfl
  | some old =>
    obtain ⟨vars', hset, -⟩ := set?_of_get? hget v
    rw [hset] at h
    cases h

theorem get?_of_declare?_eq_none {type : Ty} (h : vars.declare? name type v = none) :
    vars.get? name ≠ none := by
  intro hget
  rw [declare?_of_get? hget] at h
  cases h

end Space

namespace Statement

/-- The expressions that a statement begins with. -/
def heads : Statement → List Checked
  | declare _ _ _ initial => initial.toList
  | returnWith _ value => value.toList
  | assign _ _ e | compound _ _ _ e | call _ e | delay _ e _ | forCount _ _ e _
  | forEach _ _ _ e _ | switch _ e _ _ => [e]
  | change _ _ c => c.expressions
  | _ => []

/-- The ways in which a statement can fail at its beginning. -/
inductive Fails (m : Machine) : Statement → RunFault → Prop
  | eval {s : Statement} {e : Checked} {m₁ m₂ : Machine} {err : EvalError} :
    e ∈ s.heads → m₁.vars = m.vars → m₁.eval e = (.error err, m₂) → Fails m s (.eval err)
  | arithmetic {line : Nat} {name : String} {op : CompoundOp} {e : Checked} {a b : Float}
    {err : EvalError} :
    op.arithmetic.apply a b = .error err → Fails m (compound line name op e) (.eval err)
  | operator {line : Nat} {name : String} {op : CompoundOp} {e : Checked} (type : Ty) :
    Fails m (compound line name op e) (.wrongOperator op type)
  | declared {line : Nat} {name : String} {type : Ty} {initial : Option Checked} :
    m.vars.get? name ≠ none → Fails m (declare line name type initial) (.alreadyDeclared name)
  | undeclared {s : Statement} {name : String} :
    s.target? = some name → (∀ line value, s ≠ returnWith line value) →
    m.vars.get? name = none → Fails m s (.undeclared name)
  | noSlot {line : Nat} {e : Checked} : m.vars.get? Name.returnSlot = none →
    Fails m (returnWith line (some e)) (.undeclared Name.returnSlot)
  | change {line : Nat} {name : String} {c : Change} {vs : List Value} {m' : Machine}
    {target : Value} {fault : RunFault} :
    m.values c.expressions = (.ok vs, m') → m'.vars.value? name = some target →
    (m'.applyChange line name c target vs).1 = .failed (.atLine line fault) →
    Fails m (change line name c) fault
  | duration {line : Nat} {e : Checked} {body : List Statement} (shown : String) :
    Fails m (delay line e body) (.invalidDelay shown)
  | noQueue {line : Nat} {e : Checked} {body : List Statement} :
    Fails m (delay line e body) .noScheduler
  | count {line : Nat} {name : String} {e : Checked} {body : List Statement} (shown : String) :
    Fails m (forCount line name e body) (.notCount shown)
  | items {line : Nat} {name : String} {element : Ty} {e : Checked} {body : List Statement}
    {v : Value} {m' : Machine} :
    m.eval e = (.ok v, m') → (∀ c, v ≠ .collection c) →
    Fails m (forEach line name element e body) (.notCollection (m'.render v))

variable {s : Statement} {m : Machine} {ending : Ending}

theorem WellPlaced.heads_typed {p : Place} (hs : s.WellPlaced p) :
    ∀ e ∈ s.heads, e.Typed p.context.library p.scope := by
  intro e he
  cases s with
  | declare line name type initial => exact (hs.2.2.2 e (Option.mem_toList.mp he)).1
  | returnWith line value =>
    rw [Option.mem_toList.mp he] at hs
    exact hs.2.2.1
  | change line name c =>
    obtain ⟨type, -, hc⟩ := hs
    exact hc.typed e he
  | assign line name value =>
    obtain ⟨type, -, hvalue⟩ := hs
    rw [List.mem_singleton.mp he]
    exact hvalue.1
  | compound line name op value =>
    obtain ⟨type, -, hvalue, -⟩ := hs
    rw [List.mem_singleton.mp he]
    exact hvalue
  | call line value =>
    rw [List.mem_singleton.mp he]
    exact hs
  | delay line duration body =>
    rw [List.mem_singleton.mp he]
    exact hs.1
  | switch line value cases otherwise =>
    rw [List.mem_singleton.mp he]
    exact hs.1
  | forCount line name count body =>
    rw [List.mem_singleton.mp he]
    exact hs.2.1
  | forEach line name element items body =>
    rw [List.mem_singleton.mp he]
    exact hs.2.1
  | _ => cases he

section Start

variable (hfails : ∀ line fault, s.Fails m fault → ¬ Bad (.atLine line fault))

include hfails

theorem withValue_avoids {line : Nat} {e : Checked} {go : Value → Machine → Ending}
    (he : e ∈ s.heads) (hgo : ∀ v m', m.eval e = (.ok v, m') → Machine.Avoids Bad (go v m')) :
    Machine.Avoids Bad (m.withValue line e go) :=
  Machine.avoids_withValue (fun _ _ heval => hfails line _ (.eval he rfl heval)) hgo

theorem fail_undeclared_avoids {line : Nat} {name : String} {m' : Machine}
    (htarget : s.target? = some name) (hreturn : ∀ line value, s ≠ returnWith line value)
    (hvars : m'.vars = m.vars) (hnone : m'.vars.get? name = none) :
    Machine.Avoids Bad (m'.fail line (.undeclared name)) := by
  rw [hvars] at hnone
  exact Machine.avoids_fail (hfails line _ (.undeclared htarget hreturn hnone))

theorem store_avoids {line : Nat} {name : String} {v : Value} {m' : Machine}
    (htarget : s.target? = some name) (hreturn : ∀ line value, s ≠ returnWith line value)
    (hvars : m'.vars = m.vars) : Machine.Avoids Bad (m'.store line name v) := by
  refine Machine.store_cases (fun _ _ => Machine.avoids_done _) fun hset => ?_
  exact fail_undeclared_avoids hfails htarget hreturn hvars (Space.get?_of_set?_eq_none hset)

theorem withVariable_avoids {line : Nat} {name : String} {go : Value → Ending} {m' : Machine}
    (htarget : s.target? = some name) (hreturn : ∀ line value, s ≠ returnWith line value)
    (hvars : m'.vars = m.vars)
    (hgo : ∀ v, m'.vars.value? name = some v → Machine.Avoids Bad (go v)) :
    Machine.Avoids Bad (m'.withVariable line name go) := by
  refine Machine.withVariable_cases hgo fun hvalue => ?_
  exact fail_undeclared_avoids hfails htarget hreturn hvars (Space.get?_of_value?_eq_none hvalue)

omit hfails in
theorem introduce_avoids {line : Nat} {name : String} {type : Ty} {initial : Option Checked}
    (hfails : ∀ line' fault, (declare line name type initial).Fails m fault →
      ¬ Bad (.atLine line' fault)) {v : Value} {m' : Machine} (hvars : m'.vars = m.vars) :
    Machine.Avoids Bad (m'.introduce line name type v) := by
  unfold Machine.introduce
  split
  · exact Machine.avoids_done _
  · rename_i hdeclare
    rw [hvars] at hdeclare
    exact Machine.avoids_fail (hfails line _ (.declared (Space.get?_of_declare?_eq_none hdeclare)))

/-- A statement that ends at its beginning fails in one of these ways, if it does. -/
theorem start_avoids (hstart : s.start m = .ended ending) : Machine.Avoids Bad ending := by
  cases s with
  | declare line name type initial =>
    cases hstart
    cases initial with
    | none => exact introduce_avoids hfails rfl
    | some e =>
      refine withValue_avoids hfails List.mem_cons_self fun v m' heval => ?_
      exact introduce_avoids hfails (Machine.vars_of_eval heval)
  | assign line name value =>
    cases hstart
    refine withValue_avoids hfails List.mem_cons_self fun v m' heval => ?_
    exact store_avoids hfails rfl (fun _ _ hf => by cases hf) (Machine.vars_of_eval heval)
  | compound line name op value =>
    cases hstart
    refine withValue_avoids hfails List.mem_cons_self fun v m' heval => ?_
    have hstore : ∀ x, Machine.Avoids Bad (m'.store line name x) := fun x =>
      store_avoids hfails rfl (fun _ _ hf => by cases hf) (Machine.vars_of_eval heval)
    refine withVariable_avoids hfails rfl (fun _ _ hf => by cases hf) (Machine.vars_of_eval heval) ?_
    intro current _
    dsimp only
    split
    · split
      · exact hstore _
      · rename_i herr
        exact Machine.avoids_fail (hfails line _ (.arithmetic herr))
    · exact hstore _
    · exact Machine.avoids_done _
    · exact Machine.avoids_done _
    · exact Machine.avoids_done _
    · exact Machine.avoids_fail (hfails line _ (.operator _))
  | returnWith line value =>
    cases hstart
    cases value with
    | none => exact Machine.avoids_returned m
    | some e =>
      refine withValue_avoids hfails List.mem_cons_self fun v m' heval => ?_
      split
      · exact Machine.avoids_returned _
      · rename_i hset
        have hnone := Space.get?_of_set?_eq_none hset
        rw [Machine.vars_of_eval heval] at hnone
        exact Machine.avoids_fail (hfails line _ (.noSlot hnone))
  | change line name c =>
    cases hstart
    unfold Machine.change
    split
    · rename_i err m' hvalues
      obtain ⟨e, m₁, he, hvars, heval⟩ := Machine.eval_of_values_error hvalues
      exact Machine.avoids_fail (hfails line _ (.eval he hvars heval))
    · rename_i vs m' hvalues
      refine withVariable_avoids hfails rfl (fun _ _ hf => by cases hf)
        (Machine.vars_of_values hvalues) ?_
      intro target htarget err herr
      obtain ⟨fault, rfl⟩ := Machine.applyChange_failed herr
      exact hfails line _ (.change hvalues htarget herr)
  | call line e =>
    cases hstart
    exact withValue_avoids hfails List.mem_cons_self fun _ m' _ => Machine.avoids_done m'
  | delay line duration body =>
    cases hstart
    refine withValue_avoids hfails List.mem_cons_self fun v m' _ => ?_
    dsimp only
    split
    · split
      · split
        · exact Machine.avoids_fail (hfails line _ .noQueue)
        · exact Machine.avoids_done _
      · exact Machine.avoids_fail (hfails line _ (.duration _))
    · exact Machine.avoids_fail (hfails line _ (.duration _))
  | breakOut =>
    cases hstart
    exact Signal.avoids_of_ne fun _ hf => by cases hf
  | continueOn =>
    cases hstart
    exact Signal.avoids_of_ne fun _ hf => by cases hf
  | forCount line name count body =>
    simp only [start] at hstart
    split at hstart
    · cases hstart
    · cases hstart
      exact Machine.avoids_fail (hfails line _ (.count _))
    · rename_i heval
      cases hstart
      exact Machine.avoids_fail (hfails line _ (.eval List.mem_cons_self rfl heval))
  | forEach line name element items body =>
    simp only [start] at hstart
    split at hstart
    · cases hstart
    · rename_i hne heval
      cases hstart
      exact Machine.avoids_fail (hfails line _ (.items heval fun c => hne c))
    · rename_i heval
      cases hstart
      exact Machine.avoids_fail (hfails line _ (.eval List.mem_cons_self rfl heval))
  | switch line value cases otherwise =>
    simp only [start] at hstart
    split at hstart
    · cases hstart
    · rename_i heval
      cases hstart
      exact Machine.avoids_fail (hfails line _ (.eval List.mem_cons_self rfl heval))
  | ifChain line arms otherwise => cases hstart
  | whileLoop line test body => cases hstart

end Start

end Statement

/-! ### Turns -/

namespace Statement

variable {s : Statement} {m : Machine} {ending : Ending}

/-- The expressions that the turns of a statement test. -/
def tests : Statement → List Checked
  | ifChain _ arms _ => arms.map Section.test
  | whileLoop _ test _ => [test]
  | switch _ _ cases _ => cases.map Section.test
  | _ => []

theorem WellPlaced.tests_typed {p : Place} (hs : s.WellPlaced p) :
    ∀ test ∈ s.tests, test.Typed p.context.library p.scope := by
  intro test htest
  cases s with
  | ifChain line arms otherwise =>
    obtain ⟨arm, harm, rfl⟩ := List.mem_map.mp htest
    exact (hs arm harm).1
  | whileLoop line t body =>
    rw [List.mem_singleton.mp htest]
    exact hs.1
  | switch line value cases otherwise =>
    obtain ⟨c, hc, rfl⟩ := List.mem_map.mp htest
    exact hs.2 c hc
  | _ => cases htest

/-- No test of the list fails badly with the given variables. -/
def TestsWell (Bad : RunError → Prop) (vars : Space) (tests : List Checked) : Prop :=
  ∀ test ∈ tests, ∀ (line : Nat) (m : Machine) err m', m.vars = vars →
    m.eval test = (.error err, m') → ¬ Bad (.atLine line (.eval err))

theorem tests_eq (s : Statement) : s.tests = s.sections.map Section.test := by
  cases s <;> rfl

variable (hshown : ∀ line shown, ¬ Bad (.atLine line (.notBoolean shown)))

include hshown

theorem Chooses.avoids {stage : Stage} {otherwise : Option (List Statement)} {l : List Section}
    (h : Chooses stage otherwise l m (.ended ending))
    (htests : TestsWell Bad m.vars (l.map Section.test)) : Machine.Avoids Bad ending := by
  generalize hturn : Turn.ended ending = turn at h
  induction h with
  | @fails line test body rest m m' err heval =>
    cases hturn
    exact Machine.avoids_fail (htests test List.mem_cons_self line m err m' rfl heval)
  | refuses =>
    cases hturn
    exact Machine.avoids_fail (hshown _ _)
  | skips heval _ ih =>
    refine ih ?_ hturn
    rw [Machine.vars_of_eval heval]
    exact fun test htest => htests test (List.mem_cons_of_mem _ htest)
  | nothing =>
    cases hturn
    exact Machine.avoids_done _
  | _ => cases hturn

/-- A turn ends badly only if one of the tests does. -/
theorem turn_avoids (htests : TestsWell Bad m.vars s.tests) {stage : Stage}
    (hturn : s.turn stage m = .ended ending) : Machine.Avoids Bad ending := by
  have hturns := s.turnsTo_turn stage m
  rw [hturn] at hturns
  cases hturns with
  | choice hchooses => exact hchooses.avoids hshown (s.tests_eq ▸ htests)
  | ends => exact Machine.avoids_done m

omit hshown

/-- What a statement itself signals is not a bad error, if neither its beginning nor its tests end
with one and the variables of its blocks are not there already. -/
theorem raises_avoids {limit : Nat} {signal : Signal}
    (hstart : ∀ ending, s.start m = .ended ending → Machine.Avoids Bad ending)
    (hturn : ∀ stage m₁ ending, s.ComesTo limit m stage m₁ → s.turn stage m₁ = .ended ending →
      Machine.Avoids Bad ending)
    (hopen : ∀ stage m₁ e stage' m₂, s.ComesTo limit m stage m₁ →
      s.turn stage m₁ = .block e stage' m₂ → e.open? m₂ = none → e.refuse.Avoids Bad)
    (hraises : s.Raises limit m signal) : signal.Avoids Bad := by
  rcases hraises with ⟨m', hended⟩ | ⟨stage, m₁, hcomes, ⟨m', hended⟩ | hrefused⟩
  · exact hstart _ hended
  · exact hturn stage m₁ _ hcomes hended
  · obtain ⟨e, stage', m₂, hblock, hnone, rfl⟩ := hrefused
    exact hopen stage m₁ e stage' m₂ hcomes hblock hnone

end Statement

end WorldScript
