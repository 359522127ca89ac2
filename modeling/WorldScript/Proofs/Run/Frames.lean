import WorldScript.Proofs.Run.Turns
import WorldScript.Proofs.Space.Types

/-! # What a run does to the frames

A run can give other values to variables, but it leaves the types of all frames as they were. There
is one exception: a declaration that ends normally adds its variable to the innermost frame. This
holds of every tree, compiled or not, and for every way in which a statement can end.

* `Statement.run_types`: the statement for one statement.
* `Statement.runAll_outer`: a sequence leaves the frames around its own alone. -/

namespace WorldScript

open Space (typesOf)

namespace Machine

variable {m m' : Machine} {line : Nat} {name : String} {e : Checked} {P : Ending → Prop}

@[simp] theorem eval_vars (m : Machine) (e : Checked) : (m.eval e).2.vars = m.vars := rfl

theorem vars_of_eval {r : Except EvalError Value} (h : m.eval e = (r, m')) : m'.vars = m.vars := by
  rw [← eval_vars m e, h]

theorem run_of_eval {r : Except EvalError Value} (h : m.eval e = (r, m')) :
    (e.eval m.vars).run.run m.world = (r, m'.world) ∧ m' = { m with world := m'.world } := by
  cases h
  exact ⟨rfl, rfl⟩

theorem eval_of_run {r : Except EvalError Value}
    (h : (e.eval m.vars).run.run m.world = (r, m'.world)) (hrest : m' = { m with world := m'.world }) :
    m.eval e = (r, m') := by
  rw [hrest]
  simp only [eval, Checked.run, h]

theorem eval_var (type : Ty) {v : Value} (hx : m.vars.value? name = some v) :
    m.eval (.var name type) = (.ok v, m) := by
  refine eval_of_run ?_ rfl
  rw [Checked.eval, hx]
  rfl

/-- What holds of both ways to go on after an expression. -/
theorem withValue_cases {go : Value → Machine → Ending}
    (hok : ∀ v m', m.eval e = (.ok v, m') → P (go v m'))
    (herr : ∀ err m', m.eval e = (.error err, m') → P (m'.fail line (.eval err))) :
    P (m.withValue line e go) := by
  unfold withValue
  split
  · rename_i v m' h
    exact hok v m' h
  · rename_i err m' h
    exact herr err m' h

theorem withVariable_cases {go : Value → Ending}
    (hsome : ∀ v, m.vars.value? name = some v → P (go v))
    (hnone : m.vars.value? name = none → P (m.fail line (.undeclared name))) :
    P (m.withVariable line name go) := by
  unfold withVariable
  split
  · rename_i v h
    exact hsome v h
  · rename_i h
    exact hnone h

theorem store_cases {v : Value}
    (hsome : ∀ vars, m.vars.set? name v = some vars → P { m with vars }.done)
    (hnone : m.vars.set? name v = none → P (m.fail line (.undeclared name))) :
    P (m.store line name v) := by
  unfold store
  split
  · rename_i vars h
    exact hsome vars h
  · rename_i h
    exact hnone h

theorem require_cases {α : Type} {r : Except RunFault α} {go : α → Ending}
    (hok : ∀ a, r = .ok a → P (go a)) (herr : ∀ fault, r = .error fault → P (m.fail line fault)) :
    P (m.require line r go) := by
  cases r with
  | ok a => exact hok a rfl
  | error fault => exact herr fault rfl

theorem done_eq_normal_iff : m.done = (.normal, m') ↔ m = m' := by simp [done]

theorem require_eq_normal_iff {α : Type} {r : Except RunFault α} {go : α → Ending} :
    m.require line r go = (.normal, m') ↔ ∃ a, r = .ok a ∧ go a = (.normal, m') := by
  cases r with
  | ok a => simp [require]
  | error fault => simp [require, fail]

theorem store_eq_normal_iff {v : Value} :
    m.store line name v = (.normal, m') ↔
      ∃ vars, m.vars.set? name v = some vars ∧ { m with vars } = m' := by
  unfold store
  cases m.vars.set? name v with
  | some vars => simp [done]
  | none => simp [fail]

/-- A change ends normally with another heap, or gives its target a new sequence, or fails and has
done nothing. -/
theorem applyChange_cases {c : Change} {target : Value} {values : List Value}
    (hdone : ∀ h, P (m.withHeap h).done)
    (hstore : ∀ items, P ((m.withHeap (m.world.heap.newList items).2).store line name
      (m.world.heap.newList items).1))
    (hfail : ∀ fault, P (m.fail line fault)) : P (m.applyChange line name c target values) := by
  unfold applyChange
  split
  case h_2 | h_10 | h_11 | h_12 | h_13 =>
    exact require_cases (fun _ _ => hdone _) fun fault _ => hfail fault
  case h_6 => exact require_cases (fun _ _ => hstore _) fun fault _ => hfail fault
  case h_4 | h_14 => exact hfail _
  all_goals exact hdone _

/-! ### Statements without blocks -/

/-- The end of a statement that kept the types. -/
def KeepsTypes (m : Machine) (ending : Ending) : Prop := ending.2.vars.types = m.vars.types

theorem KeepsTypes.of_vars {ending : Ending} (h : ending.2.vars = m.vars) : m.KeepsTypes ending :=
  congrArg Space.types h

/-- The end of a statement that gave at most the named variable another value. -/
def Sets (m : Machine) (name : String) (ending : Ending) : Prop :=
  ending.2.vars = m.vars ∨ ∃ v, m.vars.set? name v = some ending.2.vars

theorem Sets.keepsTypes {ending : Ending} (h : m.Sets name ending) : m.KeepsTypes ending := by
  rcases h with h | ⟨v, hset⟩
  · exact .of_vars h
  · exact Space.types_set? hset

theorem Sets.of_set? {v : Value} {vars : Space} (hm : m'.vars = m.vars)
    (hset : m'.vars.set? name v = some vars) (signal : Signal) :
    m.Sets name (signal, { m' with vars }) := by
  rw [hm] at hset
  exact Or.inr ⟨v, hset⟩

theorem sets_store (line : Nat) (name : String) (v : Value) (hm : m'.vars = m.vars) :
    m.Sets name (m'.store line name v) := by
  refine store_cases ?_ ?_
  · intro vars hset
    exact .of_set? hm hset .normal
  · intro _
    exact Or.inl hm

theorem sets_assign (m : Machine) (line : Nat) (name : String) (value : Checked) :
    m.Sets name (m.assign line name value) := by
  refine withValue_cases ?_ ?_
  · intro v m' h
    exact sets_store line name v (vars_of_eval h)
  · intro err m' h
    exact Or.inl (vars_of_eval h)

theorem sets_compound (m : Machine) (line : Nat) (name : String) (op : CompoundOp)
    (value : Checked) : m.Sets name (m.compound line name op value) := by
  refine withValue_cases ?_ ?_
  · intro v m' h
    have hm := vars_of_eval h
    refine withVariable_cases ?_ ?_
    · intro current _
      dsimp only
      split
      · split
        · exact sets_store _ _ _ hm
        · exact Or.inl hm
      · exact sets_store _ _ _ hm
      all_goals exact Or.inl hm
    · intro _
      exact Or.inl hm
  · intro err m' h
    exact Or.inl (vars_of_eval h)

theorem sets_returnWith (m : Machine) (line : Nat) (value : Option Checked) :
    m.Sets Name.returnSlot (m.returnWith line value) := by
  cases value with
  | none => exact Or.inl rfl
  | some e =>
    refine withValue_cases ?_ ?_
    · intro v m' h
      have hm := vars_of_eval h
      split
      · rename_i vars hset
        exact .of_set? hm hset .returned
      · exact Or.inl hm
    · intro err m' h
      exact Or.inl (vars_of_eval h)

theorem vars_callFunction (m : Machine) (line : Nat) (e : Checked) :
    (m.callFunction line e).2.vars = m.vars := by
  refine withValue_cases (P := fun ending => ending.2.vars = m.vars) ?_ ?_
  · intro v m' h
    exact vars_of_eval h
  · intro err m' h
    exact vars_of_eval h

theorem vars_delay (m : Machine) (line : Nat) (duration : Checked) (body : List Statement) :
    (m.delay line duration body).2.vars = m.vars := by
  refine withValue_cases (P := fun ending => ending.2.vars = m.vars) ?_ ?_
  · intro v m' h
    have hm := vars_of_eval h
    dsimp only
    split
    · split
      · split <;> exact hm
      · exact hm
    · exact hm
  · intro err m' h
    exact vars_of_eval h

theorem vars_of_values {es : List Checked} {r : Except EvalError (List Value)}
    (h : m.values es = (r, m')) : m'.vars = m.vars := by
  induction es generalizing m r with
  | nil =>
    cases h
    rfl
  | cons e es ih =>
    simp only [values] at h
    split at h
    · rename_i he
      cases h
      exact vars_of_eval he
    · rename_i he
      split at h
      all_goals
        rename_i hes
        cases h
        exact (ih hes).trans (vars_of_eval he)

theorem sets_change (m : Machine) (line : Nat) (name : String) (c : Change) :
    m.Sets name (m.change line name c) := by
  unfold change
  split
  · rename_i h
    exact Or.inl (vars_of_values h)
  · rename_i values m' h
    have hm := vars_of_values h
    refine withVariable_cases ?_ ?_
    · intro target _
      exact applyChange_cases (fun _ => Or.inl hm) (fun _ => sets_store _ _ _ hm)
        fun _ => Or.inl hm
    · intro _
      exact Or.inl hm

/-- The end of a declaration: normal with the new variable, or another one with all variables as
before. -/
def Declares (m : Machine) (name : String) (type : Ty) (ending : Ending) : Prop :=
  (ending.1 ≠ .normal ∧ ending.2.vars = m.vars) ∨
    ending.1 = .normal ∧ ∃ v, m.vars.declare? name type v = some ending.2.vars

theorem Declares.of_fail {type : Ty} {fault : RunFault} (hm : m'.vars = m.vars) :
    m.Declares name type (m'.fail line fault) := by
  refine Or.inl ⟨?_, hm⟩
  intro h
  cases h

theorem declares_introduce (line : Nat) (name : String) (type : Ty) (v : Value)
    (hm : m'.vars = m.vars) : m.Declares name type (m'.introduce line name type v) := by
  unfold introduce
  split
  · rename_i vars hdeclare
    rw [hm] at hdeclare
    exact Or.inr ⟨rfl, v, hdeclare⟩
  · exact .of_fail hm

theorem declares_declare (m : Machine) (line : Nat) (name : String) (type : Ty)
    (initial : Option Checked) : m.Declares name type (m.declare line name type initial) := by
  cases initial with
  | none => exact declares_introduce line name type _ rfl
  | some e =>
    refine withValue_cases ?_ ?_
    · intro v m' h
      exact declares_introduce line name type v (vars_of_eval h)
    · intro err m' h
      exact .of_fail (vars_of_eval h)

end Machine

/-! ### Statements with blocks -/

namespace Statement

variable {s : Statement} {m m' : Machine} {stage stage' : Stage} {e : Entry} {ending : Ending}

/-- The state after a turn, up to the block that it runs. -/
def Turn.machine : Turn → Machine
  | .ended ending => ending.2
  | .block _ _ m => m

theorem Chooses.vars {otherwise : Option (List Statement)} {l : List Section} {turn : Turn}
    (h : Chooses stage otherwise l m turn) : (Turn.machine turn).vars = m.vars := by
  induction h with
  | fails heval => exact Machine.vars_of_eval heval
  | refuses heval => exact Machine.vars_of_eval heval
  | takes heval => exact Machine.vars_of_eval heval
  | skips heval _ ih => rw [ih, Machine.vars_of_eval heval]
  | left => rfl
  | nothing => rfl

theorem vars_turn (s : Statement) (stage : Stage) (m : Machine) :
    (Turn.machine (s.turn stage m)).vars = m.vars := by
  have hturn := s.turnsTo_turn stage m
  generalize s.turn stage m = turn at hturn
  cases hturn with
  | choice hchooses => exact hchooses.vars
  | _ => rfl

theorem vars_of_start (h : s.start m = .turns stage m') : m'.vars = m.vars := by
  cases s with
  | forCount line name count body =>
    simp only [start] at h
    split at h
    · rename_i he
      cases h
      exact Machine.vars_of_eval he
    · cases h
    · cases h
  | forEach line name element items body =>
    simp only [start] at h
    split at h
    · rename_i he
      cases h
      exact Machine.vars_of_eval he
    · cases h
    · cases h
  | switch line value cases otherwise =>
    simp only [start] at h
    split at h
    · rename_i he
      cases h
      exact Machine.vars_of_eval he
    · cases h
  | ifChain line arms otherwise =>
    cases h
    rfl
  | whileLoop line test body =>
    cases h
    rfl
  | _ => cases h

/-- The variable that a statement adds to the frame it stands in. -/
def declared? : Statement → Option (String × Ty)
  | declare _ name type _ => some (name, type)
  | _ => none

/-- What the end of a statement does to the types: nothing, unless it is a declaration. -/
def RunsTo (s : Statement) (m : Machine) (ending : Ending) : Prop :=
  match s.declared? with
  | none => m.KeepsTypes ending
  | some (name, type) => m.Declares name type ending

theorem declared?_of_turns (h : s.start m = .turns stage m') : s.declared? = none := by
  cases s with
  | declare line name type initial => cases h
  | _ => rfl

/-- The variable that a statement without blocks can give another value. -/
def target? : Statement → Option String
  | assign _ name _ => some name
  | compound _ name _ _ => some name
  | change _ name _ => some name
  | returnWith _ _ => some Name.returnSlot
  | _ => none

/-- What the beginning of a statement does to the variables, unless it is a declaration. -/
theorem start_sets (h : s.start m = .ended ending) (hs : s.declared? = none) :
    ending.2.vars = m.vars ∨ ∃ name, s.target? = some name ∧ m.Sets name ending := by
  cases s with
  | declare line name type initial => cases hs
  | assign line name value =>
    cases h
    exact Or.inr ⟨name, rfl, m.sets_assign line name value⟩
  | compound line name op value =>
    cases h
    exact Or.inr ⟨name, rfl, m.sets_compound line name op value⟩
  | returnWith line value =>
    cases h
    exact Or.inr ⟨_, rfl, m.sets_returnWith line value⟩
  | change line name c =>
    cases h
    exact Or.inr ⟨name, rfl, m.sets_change line name c⟩
  | call line e =>
    cases h
    exact Or.inl (m.vars_callFunction line e)
  | delay line duration body =>
    cases h
    exact Or.inl (m.vars_delay line duration body)
  | breakOut =>
    cases h
    exact Or.inl rfl
  | continueOn =>
    cases h
    exact Or.inl rfl
  | ifChain line arms otherwise => cases h
  | whileLoop line test body => cases h
  | forCount line name count body =>
    simp only [start] at h
    split at h
    · cases h
    all_goals
      rename_i he
      cases h
      exact Or.inl (Machine.vars_of_eval he)
  | forEach line name element items body =>
    simp only [start] at h
    split at h
    · cases h
    all_goals
      rename_i he
      cases h
      exact Or.inl (Machine.vars_of_eval he)
  | switch line value cases otherwise =>
    simp only [start] at h
    split at h
    · cases h
    · rename_i he
      cases h
      exact Or.inl (Machine.vars_of_eval he)

theorem runsTo_of_start (h : s.start m = .ended ending) : s.RunsTo m ending := by
  unfold RunsTo
  cases hdeclared : s.declared? with
  | none =>
    rcases start_sets h hdeclared with hvars | ⟨name, -, hsets⟩
    · exact .of_vars hvars
    · exact hsets.keepsTypes
  | some declared =>
    cases s with
    | declare line name type initial =>
      cases hdeclared
      cases h
      exact m.declares_declare line name type initial
    | _ => cases hdeclared

end Statement

/-! ### Whole runs -/

/-- The frames around the innermost one kept their types. -/
def Machine.KeepsOuter (m : Machine) (ending : Ending) : Prop :=
  ending.2.vars.outer.map typesOf = m.vars.outer.map typesOf

theorem Machine.KeepsTypes.outer {m : Machine} {ending : Ending} (h : m.KeepsTypes ending) :
    m.KeepsOuter ending := by
  unfold KeepsTypes at h
  rw [Space.types_eq_cons, Space.types_eq_cons] at h
  exact (List.cons.inj h).2

theorem Statement.RunsTo.outer {s : Statement} {m : Machine} {ending : Ending}
    (h : s.RunsTo m ending) : m.KeepsOuter ending := by
  unfold RunsTo at h
  split at h
  · exact h.outer
  · rcases h with ⟨-, h⟩ | ⟨-, v, hdeclare⟩
    · exact (Machine.KeepsTypes.of_vars h).outer
    · exact (Space.types_declare? hdeclare).1

namespace Entry

variable {e : Entry} {m inside : Machine}

/-- The frames around a new block are those from before it. -/
theorem outer_of_open? (h : e.open? m = some inside) :
    inside.vars.outer.map typesOf = m.vars.types := by
  unfold open? at h
  split at h
  · cases h
    rfl
  · simp only [Option.map_eq_some_iff] at h
    obtain ⟨vars, hdeclare, rfl⟩ := h
    exact (Space.types_declare? hdeclare).1

theorem run_types {limit : Nat} {ending : Ending}
    (hbody : ∀ m ending, Statement.runAll limit e.body m = some ending → m.KeepsOuter ending)
    (h : e.run limit m = some ending) : m.KeepsTypes ending := by
  unfold run at h
  split at h
  · cases h
    rfl
  · rename_i inside hopen
    simp only [Option.map_eq_some_iff] at h
    obtain ⟨⟨signal, m'⟩, hrun, rfl⟩ := h
    exact Space.types_pop ((hbody _ _ hrun).trans (outer_of_open? hopen))

end Entry

namespace Statement

variable {s : Statement} {limit : Nat}

/-- Turn by turn the types are the same again. -/
theorem turns_types
    (hblocks : ∀ body ∈ s.blocks, ∀ m ending, runAll limit body m = some ending →
      m.KeepsOuter ending) {n : Nat} {stage : Stage} {m : Machine} {ending : Ending}
    (h : s.turns limit n stage m = some ending) : m.KeepsTypes ending := by
  induction n generalizing stage m with
  | zero => cases h
  | succ n ih =>
    have hvars := vars_turn s stage m
    simp only [turns] at h
    split at h
    · rename_i e hturn
      cases h
      rw [hturn] at hvars
      exact .of_vars hvars
    · rename_i e stage' m' hturn
      rw [hturn] at hvars
      obtain ⟨hbody, -⟩ := turn_block hturn
      split at h
      · cases h
      · rename_i signal m'' hrun
        have hkeeps : m.KeepsTypes (signal, m'') := by
          have := Entry.run_types (hblocks _ hbody) hrun
          unfold Machine.KeepsTypes at this ⊢
          rw [this, show m'.vars = m.vars from hvars]
        split at h
        · exact (ih h).trans hkeeps
        · cases h
          exact hkeeps
        · cases h
          exact hkeeps

theorem runsTo_of_run
    (hblocks : ∀ body ∈ s.blocks, ∀ m ending, runAll limit body m = some ending →
      m.KeepsOuter ending) {m : Machine} {ending : Ending}
    (h : s.run limit m = some ending) : s.RunsTo m ending := by
  rw [run_eq] at h
  cases hstart : s.start m with
  | ended e =>
    rw [hstart] at h
    cases h
    exact runsTo_of_start hstart
  | turns stage m' =>
    rw [hstart] at h
    have hkeeps : m.KeepsTypes ending := by
      have := turns_types hblocks h
      unfold Machine.KeepsTypes at this ⊢
      rw [this, vars_of_start hstart]
    unfold RunsTo
    rw [declared?_of_turns hstart]
    exact hkeeps

/-- A sequence leaves the frames around its own alone. -/
theorem runAll_outer (limit : Nat) (l : List Statement) :
    ∀ m ending, runAll limit l m = some ending → m.KeepsOuter ending := by
  induction l using sequence_induction with
  | nil =>
    intro m ending h
    cases h
    rfl
  | cons s rest hblocks ih =>
    intro m ending h
    simp only [runAll] at h
    split at h
    · cases h
    · rename_i m' hrun
      exact (ih m' ending h).trans (runsTo_of_run hblocks hrun).outer
    · rename_i e hrun
      cases h
      exact (runsTo_of_run hblocks hrun).outer

/-- A statement keeps all types, unless it is a declaration that ends normally. -/
theorem run_types {m : Machine} {ending : Ending} (h : s.run limit m = some ending) :
    s.RunsTo m ending :=
  runsTo_of_run (fun body _ => runAll_outer limit body) h

theorem entry_types {e : Entry} {m : Machine} {ending : Ending} (h : e.run limit m = some ending) :
    m.KeepsTypes ending :=
  Entry.run_types (runAll_outer limit e.body) h

end Statement

end WorldScript
