import WorldScript.Proofs.Compile.Place
import WorldScript.Run.Basic

/-! # How a statement runs its blocks

All statements that have blocks run them in the same way. They begin with an expression, perhaps;
then they take *turns*: a turn either ends the statement, or names the block that runs next, in a
frame of its own. How the block ends decides whether there is another turn. Only what happens at the
beginning and in one turn differs from one sort of statement to the other.

* `Statement.turnsTo_turn`: what a turn can do.
* `Statement.run_eq`: a run is its beginning and its turns. What is to hold of all runs is shown of
  the beginning and of one turn, and then by induction on the turns.
* `Statement.sequence_induction`: induction over sequences of statements and their blocks. -/

namespace WorldScript

/-- A block that is about to run: the variable that its frame begins with, if there is one, and its
statements. -/
structure Entry where
  binding : Option (String × Ty × Value)
  body : List Statement

namespace Entry

/-- The state in which the statements of the block begin, unless the variable is there already. -/
def open? (e : Entry) (m : Machine) : Option Machine :=
  match e.binding with
  | none => some { m with vars := m.vars.push }
  | some (name, type, v) => (m.vars.push.declare? name type v).map fun vars => { m with vars }

/-- The end of a block whose variable is there already. -/
def refuse (e : Entry) : Signal :=
  match e.binding with
  | none => .normal
  | some (name, _) => .failed (.loopVariable name)

/-- Runs the block in a frame of its own. -/
def run (limit : Nat) (e : Entry) (m : Machine) : Option Ending :=
  match e.open? m with
  | none => some (e.refuse, m)
  | some inside =>
    (Statement.runAll limit e.body inside).map fun (signal, m) =>
      (signal, { m with vars := m.vars.pop })

theorem run_plain (limit : Nat) (body : List Statement) (m : Machine) :
    run limit ⟨none, body⟩ m = inFrame (fun m => Statement.runAll limit body m) m := rfl

theorem run_bound (limit : Nat) (name : String) (type : Ty) (v : Value) (body : List Statement)
    (m : Machine) : run limit ⟨some (name, type, v), body⟩ m =
      loopRound name type (fun m => Statement.runAll limit body m) v m := by
  simp only [run, open?, loopRound, inFrame]
  cases m.vars.push.declare? name type v with
  | none => rfl
  | some vars => rfl

end Entry

/-- How far a statement with blocks has come. -/
inductive Stage
  /-- An arm is to be chosen. -/
  | choice
  /-- A section is to be chosen for the value. -/
  | matching (v : Value)
  /-- The rounds for `i` and more are left. -/
  | count (i last : Float)
  /-- The rounds for these items are left. -/
  | items (rest : List Value)
  /-- The condition is to be tested. -/
  | test

/-- The number of turns after which a run is given up. -/
def Stage.bound (limit : Nat) : Stage → Nat
  | choice => 1
  | matching _ => 1
  | count _ _ => limit
  | items rest => rest.length + 1
  | test => limit

/-- The beginning of a statement. -/
inductive Start
  | ended (e : Ending)
  | turns (stage : Stage) (m : Machine)

/-- A turn of a statement. -/
inductive Turn
  | ended (e : Ending)
  | block (e : Entry) (stage : Stage) (m : Machine)

namespace Statement

/-- The beginning of a statement. One without blocks ends there. -/
def start : Statement → Machine → Start
  | declare line name type initial, m => .ended (m.declare line name type initial)
  | assign line name value, m => .ended (m.assign line name value)
  | compound line name op value, m => .ended (m.compound line name op value)
  | ifChain _ _ _, m => .turns .choice m
  | forCount line _ count _, m =>
    match m.eval count with
    | (.ok (.number n), m) => .turns (.count 1.0 (Number.round n)) m
    | (.ok v, m) => .ended (m.fail line (.notCount (m.render v)))
    | (.error e, m) => .ended (m.fail line (.eval e))
  | forEach line _ _ items _, m =>
    match m.eval items with
    | (.ok (.collection c), m) => .turns (.items (m.world.heap.lists.get c)) m
    | (.ok v, m) => .ended (m.fail line (.notCollection (m.render v)))
    | (.error e, m) => .ended (m.fail line (.eval e))
  | whileLoop _ _ _, m => .turns .test m
  | switch line value _ _, m =>
    match m.eval value with
    | (.ok v, m) => .turns (.matching v) m
    | (.error e, m) => .ended (m.fail line (.eval e))
  | breakOut, m => .ended (.broke, m)
  | continueOn, m => .ended (.continued, m)
  | returnWith line value, m => .ended (m.returnWith line value)
  | change line name c, m => .ended (m.change line name c)
  | call line e, m => .ended (m.callFunction line e)
  | delay line duration body, m => .ended (m.delay line duration body)

/-- The turn that runs a block if there is one. -/
def otherwiseTurn (otherwise : Option (List Statement)) (stage : Stage) (m : Machine) : Turn :=
  match otherwise with
  | some body => .block ⟨none, body⟩ stage m
  | none => .ended m.done

/-- The turn that chooses the first arm whose condition holds. -/
def armTurn (otherwise : Option (List Statement)) : List Section → Machine → Turn
  | [], m => otherwiseTurn otherwise .choice m
  | .mk line test body :: rest, m =>
    match m.condition line test with
    | .error ending => .ended ending
    | .ok (true, m) => .block ⟨none, body⟩ .choice m
    | .ok (false, m) => armTurn otherwise rest m

/-- The turn that chooses the first section whose value equals the given one. -/
def caseTurn (v : Value) (otherwise : Option (List Statement)) : List Section → Machine → Turn
  | [], m => otherwiseTurn otherwise (.matching v) m
  | .mk line test body :: rest, m =>
    match m.eval test with
    | (.error e, m) => .ended (m.fail line (.eval e))
    | (.ok w, m) =>
      if m.world.heap.same w v then .block ⟨none, body⟩ (.matching v) m
      else caseTurn v otherwise rest m

/-- One turn. -/
def turn : Statement → Stage → Machine → Turn
  | ifChain _ arms otherwise, .choice, m => armTurn otherwise arms m
  | forCount _ name _ body, .count i last, m =>
    if i ≤ last then .block ⟨some (name, .number, .number i), body⟩ (.count (i + 1.0) last) m
    else .ended m.done
  | forEach _ name element _ body, .items (item :: rest), m =>
    .block ⟨some (name, element, item), body⟩ (.items rest) m
  | whileLoop line test body, .test, m =>
    match m.condition line test with
    | .error ending => .ended ending
    | .ok (true, m) => .block ⟨none, body⟩ .test m
    | .ok (false, m) => .ended m.done
  | switch _ _ cases otherwise, .matching v, m => caseTurn v otherwise cases m
  | _, _, m => .ended m.done

/-! ### What a turn can do -/

/-- The sections among which a turn of the statement chooses. A loop with a condition has one. -/
def sections : Statement → List Section
  | ifChain _ arms _ => arms
  | whileLoop line test body => [.mk line test body]
  | switch _ _ cases _ => cases
  | _ => []

/-- The block that is run if no section is chosen. -/
def otherwise? : Statement → Option (List Statement)
  | ifChain _ _ otherwise => otherwise
  | switch _ _ _ otherwise => otherwise
  | _ => none

/-- A choice among sections. The tests are evaluated one after another, until one of them fails or
its section is taken. -/
inductive Chooses (stage : Stage) (otherwise : Option (List Statement)) :
    List Section → Machine → Turn → Prop
  | fails {line : Nat} {test : Checked} {body : List Statement} {rest : List Section}
    {m m' : Machine} {err : EvalError} :
    m.eval test = (.error err, m') →
    Chooses stage otherwise (.mk line test body :: rest) m (.ended (m'.fail line (.eval err)))
  | refuses {line : Nat} {test : Checked} {body : List Statement} {rest : List Section}
    {m m' : Machine} {v : Value} :
    m.eval test = (.ok v, m') →
    Chooses stage otherwise (.mk line test body :: rest) m
      (.ended (m'.fail line (.notBoolean (m'.render v))))
  | takes {line : Nat} {test : Checked} {body : List Statement} {rest : List Section}
    {m m' : Machine} {v : Value} :
    m.eval test = (.ok v, m') →
    Chooses stage otherwise (.mk line test body :: rest) m (.block ⟨none, body⟩ stage m')
  | skips {line : Nat} {test : Checked} {body : List Statement} {rest : List Section}
    {m m' : Machine} {v : Value} {turn : Turn} :
    m.eval test = (.ok v, m') → Chooses stage otherwise rest m' turn →
    Chooses stage otherwise (.mk line test body :: rest) m turn
  | left {m : Machine} {body : List Statement} :
    otherwise = some body → Chooses stage otherwise [] m (.block ⟨none, body⟩ stage m)
  | nothing {m : Machine} : otherwise = none → Chooses stage otherwise [] m (.ended m.done)

/-- What a turn can do: choose a section, begin a round with a number or an item, or end. -/
inductive TurnsTo : Statement → Stage → Machine → Turn → Prop
  | choice {s : Statement} {stage : Stage} {m : Machine} {turn : Turn} :
    Chooses stage s.otherwise? s.sections m turn → TurnsTo s stage m turn
  | number {line : Nat} {name : String} {count : Checked} {body : List Statement} {i last : Float}
    {m : Machine} :
    TurnsTo (forCount line name count body) (.count i last) m
      (.block ⟨some (name, .number, .number i), body⟩ (.count (i + 1.0) last) m)
  | item {line : Nat} {name : String} {element : Ty} {items : Checked} {body : List Statement}
    {item : Value} {rest : List Value} {m : Machine} :
    TurnsTo (forEach line name element items body) (.items (item :: rest)) m
      (.block ⟨some (name, element, item), body⟩ (.items rest) m)
  | ends {s : Statement} {stage : Stage} {m : Machine} : TurnsTo s stage m (.ended m.done)

theorem chooses_otherwiseTurn (otherwise : Option (List Statement)) (stage : Stage) (m : Machine) :
    Chooses stage otherwise [] m (otherwiseTurn otherwise stage m) := by
  cases otherwise with
  | none => exact .nothing rfl
  | some body => exact .left rfl

theorem eval_of_condition {m m' : Machine} {line : Nat} {test : Checked} {b : Bool}
    (h : m.condition line test = .ok (b, m')) : m.eval test = (.ok (.boolean b), m') := by
  unfold Machine.condition at h
  split at h
  · rename_i heval
    cases h
    exact heval
  · cases h
  · cases h

theorem chooses_of_condition_error {m : Machine} {line : Nat} {test : Checked} {ending : Ending}
    (h : m.condition line test = .error ending) (stage : Stage)
    (otherwise : Option (List Statement)) (body : List Statement) (rest : List Section) :
    Chooses stage otherwise (.mk line test body :: rest) m (.ended ending) := by
  unfold Machine.condition at h
  split at h
  · cases h
  · rename_i heval
    cases h
    exact .refuses heval
  · rename_i heval
    cases h
    exact .fails heval

theorem chooses_armTurn (otherwise : Option (List Statement)) (arms : List Section) (m : Machine) :
    Chooses .choice otherwise arms m (armTurn otherwise arms m) := by
  induction arms generalizing m with
  | nil => exact chooses_otherwiseTurn otherwise .choice m
  | cons arm rest ih =>
    obtain ⟨line, test, body⟩ := arm
    rw [armTurn]
    split
    · rename_i hcond
      exact chooses_of_condition_error hcond _ _ _ _
    · rename_i hcond
      exact .takes (eval_of_condition hcond)
    · rename_i hcond
      exact .skips (eval_of_condition hcond) (ih _)

theorem chooses_caseTurn (v : Value) (otherwise : Option (List Statement)) (cases : List Section)
    (m : Machine) : Chooses (.matching v) otherwise cases m (caseTurn v otherwise cases m) := by
  induction cases generalizing m with
  | nil => exact chooses_otherwiseTurn otherwise (.matching v) m
  | cons c rest ih =>
    obtain ⟨line, test, body⟩ := c
    rw [caseTurn]
    split
    · rename_i heval
      exact .fails heval
    · rename_i heval
      split
      · exact .takes heval
      · exact .skips heval (ih _)

theorem turnsTo_turn (s : Statement) (stage : Stage) (m : Machine) :
    s.TurnsTo stage m (s.turn stage m) := by
  unfold turn
  split
  · exact .choice (chooses_armTurn _ _ _)
  · split
    · exact .number
    · exact .ends
  · exact .item
  · refine .choice ?_
    split
    · rename_i hcond
      exact chooses_of_condition_error hcond _ _ _ _
    · rename_i hcond
      exact .takes (eval_of_condition hcond)
    · rename_i hcond
      exact .skips (eval_of_condition hcond) (.nothing rfl)
  · exact .choice (chooses_caseTurn _ _ _ _)
  · exact .ends

/-- A turn that ends a statement does so normally or with an error. -/
theorem Chooses.signal {stage : Stage} {otherwise : Option (List Statement)}
    {l : List Section} {m : Machine} {ending : Ending}
    (h : Chooses stage otherwise l m (.ended ending)) :
    ending.1 = .normal ∨ ∃ e, ending.1 = .failed e := by
  generalize hturn : Turn.ended ending = turn at h
  induction h with
  | fails =>
    cases hturn
    exact Or.inr ⟨_, rfl⟩
  | refuses =>
    cases hturn
    exact Or.inr ⟨_, rfl⟩
  | skips _ _ ih => exact ih hturn
  | nothing =>
    cases hturn
    exact Or.inl rfl
  | _ => cases hturn

/-- What the end of a block means for its statement. -/
def afterBlock : Statement → Signal → AfterRound
  | forCount _ _ _ _, signal => signal.afterRound
  | forEach _ _ _ _ _, signal => signal.afterRound
  | whileLoop _ _ _, signal => signal.afterRound
  | switch _ _ _ _, .broke => .stop
  | _, _ => .pass

/-- At most `n` turns. -/
def turns (limit : Nat) (s : Statement) : Nat → Stage → Run
  | 0, _, _ => none
  | n + 1, stage, m =>
    match s.turn stage m with
    | .ended ending => some ending
    | .block e stage m =>
      match e.run limit m with
      | none => none
      | some (signal, m) =>
        match s.afterBlock signal with
        | .next => turns limit s n stage m
        | .stop => some m.done
        | .pass => some (signal, m)

/-- All of a statement. -/
def Start.run (limit : Nat) (s : Statement) : Start → Option Ending
  | .ended ending => some ending
  | .turns stage m => s.turns limit (stage.bound limit) stage m

variable {limit : Nat}

/-! ### A run is its beginning and its turns -/

theorem countRounds_eq (line : Nat) (name : String) (c : Checked) (body : List Statement)
    (last : Float) (n : Nat) (i : Float) (m : Machine) :
    countRounds (fun i => loopRound name .number (fun m => runAll limit body m) (.number i)) last n
      i m = (forCount line name c body).turns limit n (.count i last) m := by
  induction n generalizing i m with
  | zero => rfl
  | succ n ih =>
    simp only [countRounds, turns, turn]
    split
    · simp only [Entry.run_bound, ih]
      rfl
    · rfl

theorem eachRound_eq (line : Nat) (name : String) (element : Ty) (e : Checked)
    (body : List Statement) (items : List Value) (m : Machine) :
    eachRound (loopRound name element (fun m => runAll limit body m)) items m =
      (forEach line name element e body).turns limit (items.length + 1) (.items items) m := by
  induction items generalizing m with
  | nil => rfl
  | cons item rest ih =>
    simp only [eachRound, List.length_cons, ih]
    rw [turns]
    simp only [turn, Entry.run_bound]
    rfl

theorem whileRounds_eq (line : Nat) (test : Checked) (body : List Statement) (n : Nat)
    (m : Machine) :
    whileRounds line test (inFrame fun m => runAll limit body m) n m =
      (whileLoop line test body).turns limit n .test m := by
  induction n generalizing m with
  | zero => rfl
  | succ n ih =>
    simp only [whileRounds, turns, turn]
    cases m.condition line test with
    | error ending => rfl
    | ok r =>
      obtain ⟨b, m'⟩ := r
      cases b with
      | false => rfl
      | true =>
        simp only [Entry.run_plain, ih]
        rfl

/-- The block of a turn that is the only one. -/
def Turn.run (limit : Nat) : Turn → Option Ending
  | .ended ending => some ending
  | .block e _ m => e.run limit m

theorem otherwiseTurn_run (otherwise : Option (List Statement)) (stage : Stage) (m : Machine) :
    Turn.run limit (otherwiseTurn otherwise stage m) =
      match otherwise with
      | some body => inFrame (fun m => runAll limit body m) m
      | none => some m.done := by
  cases otherwise <;> rfl

theorem runArms_eq (otherwise : Option (List Statement)) (arms : List Section) (m : Machine) :
    runArms limit arms (fun m =>
      match otherwise with
      | some body => inFrame (fun m => runAll limit body m) m
      | none => some m.done) m = Turn.run limit (armTurn otherwise arms m) := by
  induction arms generalizing m with
  | nil => rw [runArms, armTurn, otherwiseTurn_run]
  | cons arm rest ih =>
    obtain ⟨line, test, body⟩ := arm
    rw [runArms, armTurn]
    cases m.condition line test with
    | error ending => rfl
    | ok r =>
      obtain ⟨b, m'⟩ := r
      cases b with
      | false => exact ih m'
      | true => rfl

theorem runCases_eq (v : Value) (otherwise : Option (List Statement)) (cases : List Section)
    (m : Machine) :
    runCases limit v cases (fun m =>
      match otherwise with
      | some body => inFrame (fun m => runAll limit body m) m
      | none => some m.done) m = Turn.run limit (caseTurn v otherwise cases m) := by
  induction cases generalizing m with
  | nil => rw [runCases, caseTurn, otherwiseTurn_run]
  | cons c rest ih =>
    obtain ⟨line, test, body⟩ := c
    rw [runCases, caseTurn]
    rcases m.eval test with ⟨_ | w, m'⟩
    · rfl
    · simp only
      split
      · rfl
      · exact ih m'

theorem turns_choice (line : Nat) (arms : List Section) (otherwise : Option (List Statement))
    (m : Machine) :
    (ifChain line arms otherwise).turns limit 1 .choice m =
      Turn.run limit (armTurn otherwise arms m) := by
  simp only [turns, turn]
  cases armTurn otherwise arms m with
  | ended ending => rfl
  | block e stage m' =>
    simp only [Turn.run, afterBlock]
    cases e.run limit m' <;> rfl

/-- A turn of a switch never ends the switch with a `break`. -/
theorem caseTurn_ended {v : Value} {otherwise : Option (List Statement)} {cases : List Section}
    {m : Machine} {ending : Ending} (h : caseTurn v otherwise cases m = .ended ending) :
    ending.1.afterSwitch = ending.1 := by
  have hchooses := chooses_caseTurn v otherwise cases m
  rw [h] at hchooses
  rcases hchooses.signal with hsignal | ⟨e, hsignal⟩
  · rw [hsignal]
    rfl
  · rw [hsignal]
    rfl

theorem turns_matching (line : Nat) (e : Checked) (cases : List Section)
    (otherwise : Option (List Statement)) (v : Value) (m : Machine) :
    (switch line e cases otherwise).turns limit 1 (.matching v) m =
      (Turn.run limit (caseTurn v otherwise cases m)).map fun (signal, m) =>
        (signal.afterSwitch, m) := by
  simp only [turns, turn]
  cases hturn : caseTurn v otherwise cases m with
  | ended ending =>
    obtain ⟨signal, m'⟩ := ending
    simp only [Turn.run, Option.map_some, caseTurn_ended hturn]
  | block e stage m' =>
    simp only [Turn.run]
    rcases e.run limit m' with _ | ⟨signal, m''⟩
    · rfl
    · cases signal <;> rfl

/-- A run is its beginning and its turns. -/
theorem run_eq (limit : Nat) (s : Statement) (m : Machine) :
    s.run limit m = Start.run limit s (s.start m) := by
  cases s with
  | ifChain line arms otherwise =>
    rw [run]
    exact (runArms_eq otherwise arms m).trans (turns_choice line arms otherwise m).symm
  | forCount line name count body =>
    rw [run, start]
    rcases m.eval count with ⟨_ | v, m'⟩
    · rfl
    · cases v with
      | number n => exact countRounds_eq line name count body _ limit _ m'
      | _ => rfl
  | forEach line name element items body =>
    rw [run, start]
    rcases m.eval items with ⟨_ | v, m'⟩
    · rfl
    · cases v with
      | collection c => exact eachRound_eq line name element items body _ m'
      | _ => rfl
  | whileLoop line test body => exact whileRounds_eq line test body limit m
  | switch line value cases otherwise =>
    rw [run, start]
    rcases m.eval value with ⟨_ | v, m'⟩
    · rfl
    · exact (congrArg (Option.map _) (runCases_eq v otherwise cases m')).trans
        (turns_matching line value cases otherwise v m').symm
  | _ => rfl

/-! ### Induction over blocks -/

theorem sizeOf_section {c : Section} : sizeOf c.body < sizeOf c := by
  obtain ⟨line, test, body⟩ := c
  simp only [Section.body, Section.mk.sizeOf_spec]
  omega

theorem sizeOf_sections {sections : List Section} {body : List Statement}
    (h : body ∈ sections.map Section.body) : sizeOf body < sizeOf sections := by
  obtain ⟨c, hc, rfl⟩ := List.mem_map.mp h
  exact Nat.lt_trans sizeOf_section (List.sizeOf_lt_of_mem hc)

theorem sizeOf_branches {sections : List Section} {otherwise : Option (List Statement)}
    {body : List Statement} (h : body ∈ sections.map Section.body ++ otherwise.toList) :
    sizeOf body < 1 + sizeOf sections + sizeOf otherwise := by
  rcases List.mem_append.mp h with h | h
  · have := sizeOf_sections h
    omega
  · cases otherwise with
    | none => cases h
    | some other =>
      rw [List.mem_singleton.mp h, Option.some.sizeOf_spec]
      omega

theorem sizeOf_blocks {s : Statement} {body : List Statement} (h : body ∈ s.blocks) :
    sizeOf body < sizeOf s := by
  cases s with
  | ifChain line arms otherwise =>
    have := sizeOf_branches h
    rw [ifChain.sizeOf_spec]
    omega
  | switch line value cases otherwise =>
    have := sizeOf_branches h
    rw [switch.sizeOf_spec]
    omega
  | forCount line name count b =>
    rw [List.mem_singleton.mp h, forCount.sizeOf_spec]
    omega
  | forEach line name element items b =>
    rw [List.mem_singleton.mp h, forEach.sizeOf_spec]
    omega
  | whileLoop line test b =>
    rw [List.mem_singleton.mp h, whileLoop.sizeOf_spec]
    omega
  | delay line duration b =>
    rw [List.mem_singleton.mp h, delay.sizeOf_spec]
    omega
  | _ => cases h

/-- What holds of a sequence whenever it holds of the blocks of its first statement and of the rest
holds of all sequences. -/
theorem sequence_induction {motive : List Statement → Prop} (nil : motive [])
    (cons : ∀ s rest, (∀ body ∈ s.blocks, motive body) → motive rest → motive (s :: rest)) :
    ∀ l, motive l
  | [] => nil
  | s :: rest =>
    cons s rest
      (fun body hb =>
        have := sizeOf_blocks hb
        sequence_induction nil cons body)
      (sequence_induction nil cons rest)
termination_by l => sizeOf l
decreasing_by
  · rw [List.cons.sizeOf_spec]
    omega
  · rw [List.cons.sizeOf_spec]
    omega

/-! ### The blocks that run -/

theorem Chooses.block {stage stage' : Stage} {otherwise : Option (List Statement)}
    {l : List Section} {m m' : Machine} {e : Entry}
    (h : Chooses stage otherwise l m (.block e stage' m')) :
    e.binding = none ∧ stage' = stage ∧ e.body ∈ l.map Section.body ++ otherwise.toList := by
  generalize hturn : Turn.block e stage' m' = turn at h
  induction h with
  | takes =>
    cases hturn
    exact ⟨rfl, rfl, List.mem_cons_self⟩
  | skips _ _ ih =>
    obtain ⟨hbinding, hstage, hbody⟩ := ih hturn
    exact ⟨hbinding, hstage, List.mem_cons_of_mem _ hbody⟩
  | left hsome =>
    cases hturn
    rw [hsome]
    exact ⟨rfl, rfl, List.mem_append_right _ (List.mem_singleton_self _)⟩
  | _ => cases hturn

/-- The variable that the blocks of a statement begin with. -/
def bound? : Statement → Option (String × Ty)
  | forCount _ name _ _ => some (name, .number)
  | forEach _ name element _ _ => some (name, element)
  | _ => none

/-- What a turn chooses is one of the blocks, and begins with no variable. -/
theorem blocks_of_sections {s : Statement} {body : List Statement}
    (h : body ∈ s.sections.map Section.body ++ s.otherwise?.toList) :
    body ∈ s.blocks ∧ s.bound? = none := by
  cases s with
  | ifChain line arms otherwise => exact ⟨h, rfl⟩
  | switch line value cases otherwise => exact ⟨h, rfl⟩
  | whileLoop line test body => exact ⟨h, rfl⟩
  | _ => cases h

/-- A turn runs one of the blocks of its statement. -/
theorem turn_block {s : Statement} {stage stage' : Stage} {m m' : Machine} {e : Entry}
    (h : s.turn stage m = .block e stage' m') :
    e.body ∈ s.blocks ∧ e.binding.map (fun (name, type, _) => (name, type)) = s.bound? := by
  have hturn := s.turnsTo_turn stage m
  rw [h] at hturn
  cases hturn with
  | choice hchooses =>
    obtain ⟨hbinding, -, hbody⟩ := hchooses.block
    obtain ⟨hblock, hbound⟩ := blocks_of_sections hbody
    rw [hbinding, hbound]
    exact ⟨hblock, rfl⟩
  | number => exact ⟨List.mem_cons_self, rfl⟩
  | item => exact ⟨List.mem_cons_self, rfl⟩

end Statement

end WorldScript
