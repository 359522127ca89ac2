import WorldScript.Proofs.Queue.History
import WorldScript.Proofs.Run.Frames

/-! # What a run does to the queue

A running program has a queue only to schedule: `delay` adds a task to it, and no other statement
touches it. So however a run ends, the queue that it leaves is the one it began with and some more
tasks at its end, which are blocks of the delays of the program. In particular this holds of the
blocks that wait in a queue, and what is known of the history of queues applies to them.

* `Statement.Delays l body`: the block of a delay that stands somewhere in the sequence.
* `Statement.runAll_schedules`: the statement for sequences.
* `DelayedBlock.schedules_of_fire`, `DelayedBlock.fire_onlySchedules`: the same for a block that
  waited. -/

namespace WorldScript

/-- The longest delay that a statement can ask for, in milliseconds: the greatest number of 64
bits. -/
def longestDelay : Nat := 18446744073709551615

theorem toNat_le_longestDelay (n : UInt64) : n.toNat ≤ longestDelay :=
  Nat.le_of_lt_succ n.toNat_lt

theorem Queue.scheduleAll_append {α : Type} (q : Queue α) (l₁ l₂ : List (Nat × String × α)) :
    q.scheduleAll (l₁ ++ l₂) = (q.scheduleAll l₁).scheduleAll l₂ := List.foldl_append

/-- The second sequence is the block of a delay that stands in the first, or in a block inside of
it. -/
inductive Statement.Delays : List Statement → List Statement → Prop
  | here {l body : List Statement} {line : Nat} {duration : Checked} :
    Statement.delay line duration body ∈ l → Delays l body
  | inside {l block body : List Statement} {s : Statement} :
    s ∈ l → block ∈ s.blocks → Delays block body → Delays l body

namespace Machine

variable {m m' m'' : Machine} {line : Nat} {name : String} {e : Checked}
  {P Q : List Statement → Prop}

/-- The queue of the second state is that of the first with more tasks at its end, whose statements
have the property. Their delays are no longer than is possible. -/
def Schedules (P : List Statement → Prop) (m m' : Machine) : Prop :=
  ∃ requests, (∀ r ∈ requests, r.1 ≤ longestDelay ∧ P r.2.2.body) ∧
    m'.queue = m.queue.map fun q => q.scheduleAll requests

theorem Schedules.of_queue (h : m'.queue = m.queue) : m.Schedules P m' := by
  refine ⟨[], by simp, ?_⟩
  rw [h]
  cases m.queue <;> rfl

theorem Schedules.trans (h₁ : m.Schedules P m') (h₂ : m'.Schedules P m'') :
    m.Schedules P m'' := by
  obtain ⟨l₁, hl₁, h₁⟩ := h₁
  obtain ⟨l₂, hl₂, h₂⟩ := h₂
  refine ⟨l₁ ++ l₂, ?_, ?_⟩
  · intro r hr
    exact (List.mem_append.mp hr).elim (hl₁ r) (hl₂ r)
  · rw [h₂, h₁, Option.map_map]
    congr 1
    funext q
    exact (q.scheduleAll_append l₁ l₂).symm

theorem Schedules.mono (h : m.Schedules P m') (hPQ : ∀ body, P body → Q body) :
    m.Schedules Q m' := by
  obtain ⟨requests, hrequests, hqueue⟩ := h
  exact ⟨requests, fun r hr => ⟨(hrequests r hr).1, hPQ _ (hrequests r hr).2⟩, hqueue⟩

theorem Schedules.of_schedule {q : Queue DelayedBlock} {delay : Nat} {description : String}
    {block : DelayedBlock} (hdelay : delay ≤ longestDelay) (hblock : P block.body)
    (h : m.queue = some q) (h' : m'.queue = some (q.schedule delay description block)) :
    m.Schedules P m' := by
  refine ⟨[(delay, description, block)], by simpa using ⟨hdelay, hblock⟩, ?_⟩
  rw [h', h]
  rfl

/-! ### Statements without blocks -/

/-- The end of a statement that left the queue alone. -/
def KeepsQueue (m : Machine) (ending : Ending) : Prop := ending.2.queue = m.queue

theorem queue_of_eval {r : Except EvalError Value} (h : m.eval e = (r, m')) :
    m'.queue = m.queue := by
  cases h
  rfl

theorem keepsQueue_withValue {go : Value → Machine → Ending}
    (h : ∀ v m', m'.queue = m.queue → m.KeepsQueue (go v m')) :
    m.KeepsQueue (m.withValue line e go) := by
  refine withValue_cases ?_ ?_
  · intro v m' heval
    exact h v m' (queue_of_eval heval)
  · intro err m' heval
    exact queue_of_eval heval

theorem keepsQueue_withVariable {go : Value → Ending} (hm : m'.queue = m.queue)
    (h : ∀ v, m.KeepsQueue (go v)) : m.KeepsQueue (m'.withVariable line name go) := by
  refine withVariable_cases ?_ ?_
  · intro v _
    exact h v
  · intro _
    exact hm

theorem keepsQueue_store (line : Nat) (name : String) (v : Value) (hm : m'.queue = m.queue) :
    m.KeepsQueue (m'.store line name v) := by
  refine store_cases ?_ ?_
  · intro vars _
    exact hm
  · intro _
    exact hm

theorem keepsQueue_introduce (line : Nat) (name : String) (type : Ty) (v : Value)
    (hm : m'.queue = m.queue) : m.KeepsQueue (m'.introduce line name type v) := by
  unfold introduce
  split <;> exact hm

theorem keepsQueue_declare (m : Machine) (line : Nat) (name : String) (type : Ty)
    (initial : Option Checked) : m.KeepsQueue (m.declare line name type initial) := by
  cases initial with
  | none => exact keepsQueue_introduce line name type _ rfl
  | some e => exact keepsQueue_withValue fun v m' hm => keepsQueue_introduce line name type v hm

theorem keepsQueue_compound (m : Machine) (line : Nat) (name : String) (op : CompoundOp)
    (value : Checked) : m.KeepsQueue (m.compound line name op value) := by
  refine keepsQueue_withValue fun v m' hm => keepsQueue_withVariable hm fun current => ?_
  dsimp only
  split
  · split
    · exact keepsQueue_store _ _ _ hm
    · exact hm
  · exact keepsQueue_store _ _ _ hm
  all_goals exact hm

theorem keepsQueue_returnWith (m : Machine) (line : Nat) (value : Option Checked) :
    m.KeepsQueue (m.returnWith line value) := by
  cases value with
  | none => exact rfl
  | some e =>
    refine keepsQueue_withValue fun v m' hm => ?_
    split <;> exact hm

theorem queue_of_values {es : List Checked} {r : Except EvalError (List Value)}
    (h : m.values es = (r, m')) : m'.queue = m.queue := by
  induction es generalizing m r with
  | nil =>
    cases h
    rfl
  | cons e es ih =>
    simp only [values] at h
    split at h
    · rename_i he
      cases h
      exact queue_of_eval he
    · rename_i he
      split at h
      all_goals
        rename_i hes
        cases h
        exact (ih hes).trans (queue_of_eval he)

theorem keepsQueue_change (m : Machine) (line : Nat) (name : String) (c : Change) :
    m.KeepsQueue (m.change line name c) := by
  unfold change
  split
  · rename_i h
    exact queue_of_values h
  · rename_i values m' h
    have hm := queue_of_values h
    refine keepsQueue_withVariable hm fun target => ?_
    exact applyChange_cases (fun _ => hm) (fun _ => keepsQueue_store _ _ _ hm) fun _ => hm

/-- A delayed block comes to the end of the queue, if there is one. -/
theorem schedules_delay (m : Machine) (line : Nat) (duration : Checked) {body : List Statement}
    (hbody : P body) : m.Schedules P (m.delay line duration body).2 := by
  refine withValue_cases (P := fun ending => m.Schedules P ending.2) ?_ ?_
  · intro v m' heval
    have hm := queue_of_eval heval
    dsimp only
    split
    · split
      · split
        · exact .of_queue hm
        · rename_i q hq
          exact (Schedules.of_queue hm).trans
            (.of_schedule (toNat_le_longestDelay _) hbody hq rfl)
      · exact .of_queue hm
    · exact .of_queue hm
  · intro err m' heval
    exact .of_queue (queue_of_eval heval)

end Machine

/-! ### Whole runs -/

namespace Statement

open Machine (Schedules)

variable {limit : Nat} {s : Statement} {m m' : Machine} {stage : Stage} {signal : Signal}
  {l : List Statement}

theorem schedules_of_start (hs : s ∈ l) {ending : Ending} (h : s.start m = .ended ending) :
    m.Schedules (Delays l) ending.2 := by
  cases s with
  | declare line name type initial =>
    cases h
    exact .of_queue (m.keepsQueue_declare line name type initial)
  | assign line name value =>
    cases h
    exact .of_queue (Machine.keepsQueue_withValue fun v _ => Machine.keepsQueue_store line name v)
  | compound line name op value =>
    cases h
    exact .of_queue (m.keepsQueue_compound line name op value)
  | returnWith line value =>
    cases h
    exact .of_queue (m.keepsQueue_returnWith line value)
  | change line name c =>
    cases h
    exact .of_queue (m.keepsQueue_change line name c)
  | call line e =>
    cases h
    exact .of_queue (Machine.keepsQueue_withValue fun _ _ hm => hm)
  | delay line duration body =>
    cases h
    exact m.schedules_delay line duration (.here hs)
  | breakOut =>
    cases h
    exact .of_queue rfl
  | continueOn =>
    cases h
    exact .of_queue rfl
  | ifChain line arms otherwise => cases h
  | whileLoop line test body => cases h
  | forCount line name count body =>
    simp only [start] at h
    split at h
    · cases h
    all_goals
      rename_i he
      cases h
      exact .of_queue (Machine.queue_of_eval he)
  | forEach line name element items body =>
    simp only [start] at h
    split at h
    · cases h
    all_goals
      rename_i he
      cases h
      exact .of_queue (Machine.queue_of_eval he)
  | switch line value cases otherwise =>
    simp only [start] at h
    split at h
    · cases h
    · rename_i he
      cases h
      exact .of_queue (Machine.queue_of_eval he)

theorem queue_of_start (h : s.start m = .turns stage m') : m'.queue = m.queue := by
  cases s with
  | forCount line name count body =>
    simp only [start] at h
    split at h
    · rename_i he
      cases h
      exact Machine.queue_of_eval he
    · cases h
    · cases h
  | forEach line name element items body =>
    simp only [start] at h
    split at h
    · rename_i he
      cases h
      exact Machine.queue_of_eval he
    · cases h
    · cases h
  | switch line value cases otherwise =>
    simp only [start] at h
    split at h
    · rename_i he
      cases h
      exact Machine.queue_of_eval he
    · cases h
  | ifChain line arms otherwise =>
    cases h
    rfl
  | whileLoop line test body =>
    cases h
    rfl
  | _ => cases h

theorem Chooses.queue {otherwise : Option (List Statement)} {l : List Section} {turn : Turn}
    (h : Chooses stage otherwise l m turn) : (Turn.machine turn).queue = m.queue := by
  induction h with
  | fails heval => exact Machine.queue_of_eval heval
  | refuses heval => exact Machine.queue_of_eval heval
  | takes heval => exact Machine.queue_of_eval heval
  | skips heval _ ih => rw [ih, Machine.queue_of_eval heval]
  | left => rfl
  | nothing => rfl

theorem queue_turn (s : Statement) (stage : Stage) (m : Machine) :
    (Turn.machine (s.turn stage m)).queue = m.queue := by
  have hturn := s.turnsTo_turn stage m
  generalize s.turn stage m = turn at hturn
  cases hturn with
  | choice hchooses => exact hchooses.queue
  | _ => rfl

/-- Whatever the run of the sequence does to a queue is to schedule the blocks of its delays. -/
def OnlySchedules (limit : Nat) (l : List Statement) : Prop :=
  ∀ m signal m', runAll limit l m = some (signal, m') → m.Schedules (Delays l) m'

theorem queue_of_open? {e : Entry} {inside : Machine} (h : e.open? m = some inside) :
    inside.queue = m.queue := by
  unfold Entry.open? at h
  split at h
  · cases h
    rfl
  · simp only [Option.map_eq_some_iff] at h
    obtain ⟨vars, -, rfl⟩ := h
    rfl

theorem entry_schedules {e : Entry} (hbody : OnlySchedules limit e.body)
    (h : e.run limit m = some (signal, m')) : m.Schedules (Delays e.body) m' := by
  unfold Entry.run at h
  split at h
  · cases h
    exact .of_queue rfl
  · rename_i inside hopen
    simp only [Option.map_eq_some_iff] at h
    obtain ⟨⟨signal', m₁⟩, hrun, heq⟩ := h
    cases heq
    have hinside : m.Schedules (Delays e.body) inside := .of_queue (queue_of_open? hopen)
    exact (hinside.trans (hbody _ _ _ hrun)).trans (.of_queue rfl)

theorem turns_schedules (hs : s ∈ l) (hblocks : ∀ body ∈ s.blocks, OnlySchedules limit body)
    {n : Nat} (h : s.turns limit n stage m = some (signal, m')) : m.Schedules (Delays l) m' := by
  induction n generalizing stage m with
  | zero => cases h
  | succ n ih =>
    have hqueue := s.queue_turn stage m
    simp only [turns] at h
    split at h
    · rename_i ending hturn
      rw [hturn] at hqueue
      cases h
      exact .of_queue hqueue
    · rename_i e stage' m₁ hturn
      rw [hturn] at hqueue
      have hmem := (turn_block hturn).1
      split at h
      · cases h
      · rename_i signal' m₂ hrun
        have hbegun : m.Schedules (Delays l) m₁ := .of_queue hqueue
        have hblock : m.Schedules (Delays l) m₂ :=
          hbegun.trans ((entry_schedules (hblocks _ hmem) hrun).mono fun _ => .inside hs hmem)
        split at h
        · exact hblock.trans (ih h)
        · cases h
          exact hblock
        · cases h
          exact hblock

theorem run_schedules (hs : s ∈ l) (hblocks : ∀ body ∈ s.blocks, OnlySchedules limit body)
    (h : s.run limit m = some (signal, m')) : m.Schedules (Delays l) m' := by
  rw [run_eq] at h
  cases hstart : s.start m with
  | ended ending =>
    rw [hstart] at h
    cases h
    exact schedules_of_start hs hstart
  | turns stage m₀ =>
    rw [hstart] at h
    have hbegun : m.Schedules (Delays l) m₀ := .of_queue (queue_of_start hstart)
    exact hbegun.trans (turns_schedules hs hblocks h)

theorem Delays.cons {body : List Statement} (h : Delays l body) (s : Statement) :
    Delays (s :: l) body := by
  cases h with
  | here hmem => exact .here (List.mem_cons_of_mem s hmem)
  | inside hmem hblock hbody => exact .inside (List.mem_cons_of_mem s hmem) hblock hbody

/-- **A run only schedules the blocks of its delays**, whatever its statements are and however it
ends. -/
theorem runAll_schedules (limit : Nat) (l : List Statement) : OnlySchedules limit l := by
  induction l using sequence_induction with
  | nil =>
    intro m signal m' h
    cases h
    exact .of_queue rfl
  | cons s rest hblocks ih =>
    intro m signal m' h
    simp only [runAll] at h
    split at h
    · cases h
    · rename_i m₁ hfirst
      have hrest := (ih _ _ _ h).mono fun _ hbody => hbody.cons s
      exact (run_schedules List.mem_cons_self hblocks hfirst).trans hrest
    · rename_i hfirst
      cases h
      exact run_schedules List.mem_cons_self hblocks hfirst

end Statement

namespace DelayedBlock

/-- What a waiting block adds to the queue are the blocks of its own delays. -/
theorem schedules_of_fire {limit : Nat} {t : Task DelayedBlock} {q q' : Queue DelayedBlock}
    {w w' : World} (h : fire limit t q w = some (q', w')) :
    ∃ requests, (∀ r ∈ requests, r.1 ≤ longestDelay ∧
        Statement.Delays t.payload.body r.2.2.body) ∧
      q' = q.scheduleAll requests := by
  simp only [fire, Option.bind_eq_bind, Option.bind_eq_some_iff, Option.pure_def,
    Option.some.injEq, Prod.mk.injEq, Prod.exists] at h
  obtain ⟨signal, m, hrun, rfl, -⟩ := h
  obtain ⟨requests, hrequests, hqueue⟩ := Statement.runAll_schedules limit _ _ _ _ hrun
  refine ⟨requests, hrequests, ?_⟩
  rw [hqueue]
  rfl

/-- **All that a waiting block does to the queue is to schedule others.** -/
theorem fire_onlySchedules (limit : Nat) : Queue.Fire.OnlySchedules (fire limit) := by
  intro t q w q' w' h
  obtain ⟨requests, -, hq'⟩ := schedules_of_fire h
  exact ⟨requests, hq'⟩

end DelayedBlock

end WorldScript
