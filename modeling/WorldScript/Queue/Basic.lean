/-! # Queues of delayed tasks

A queue holds tasks that are due at a time of its own clock, in milliseconds. Tasks are numbered in
the order in which they were scheduled. The clock moves only when it is told to, and every task that
is due by then is run: the earliest first, and of those due at one time the one scheduled first.

What a task does is a parameter: a `Fire` takes the task, the queue without it and a state, and may
schedule more. Since tasks can go on scheduling others for ever, running them has a bound on their
number; `none` says that the bound was reached. -/

namespace WorldScript

/-- A task that waits. -/
structure Task (α : Type) where
  id : Nat
  description : String
  /-- When it is to run. -/
  due : Nat
  payload : α

/-- Tasks in the order of their scheduling, the time, and the number of the newest task. -/
structure Queue (α : Type) where
  tasks : List (Task α)
  now : Nat
  lastId : Nat

namespace Queue

variable {α σ : Type}

instance : Inhabited (Queue α) := ⟨⟨[], 0, 0⟩⟩

/-- No tasks, at time zero. -/
def empty : Queue α := ⟨[], 0, 0⟩

/-- The queue with one more task. -/
def schedule (q : Queue α) (delay : Nat) (description : String) (payload : α) : Queue α :=
  { q with
    tasks := q.tasks ++ [⟨q.lastId + 1, description, q.now + delay, payload⟩]
    lastId := q.lastId + 1 }

/-- The time until a task is due. -/
def remaining (q : Queue α) (t : Task α) : Nat := t.due - q.now

/-- The time until the first task is due. -/
def nextWakeup? (q : Queue α) : Option Nat := (q.tasks.map q.remaining).min?

/-- The tasks by the time until they are due, of equal ones the one scheduled first. -/
def pending (q : Queue α) : List (Task α) :=
  q.tasks.mergeSort fun a b =>
    q.remaining a < q.remaining b || (q.remaining a == q.remaining b && a.id ≤ b.id)

/-- The queue without the task of that number. -/
def remove (q : Queue α) (id : Nat) : Queue α := { q with tasks := q.tasks.filter (·.id ≠ id) }

/-- There is a task of that number. -/
def holds (q : Queue α) (id : Nat) : Bool := q.tasks.any (·.id == id)

/-- The queue without its tasks. -/
def clear (q : Queue α) : Queue α := { q with tasks := [] }

/-- The first task is to run before the second. -/
def before (a b : Task α) : Bool := a.due < b.due || (a.due == b.due && a.id < b.id)

/-- The earlier of two tasks. -/
def earlier (best : Option (Task α)) (t : Task α) : Option (Task α) :=
  match best with
  | none => some t
  | some b => if before t b then some t else some b

/-- The task that is to run now, if one is due. -/
def due? (q : Queue α) : Option (Task α) :=
  (q.tasks.filter (·.due ≤ q.now)).foldl earlier none

/-- What a task does to the queue, from which it was taken, and to a state. -/
abbrev Fire (α σ : Type) := Task α → Queue α → σ → Option (Queue α × σ)

/-- Runs the tasks that are due, at most `limit` of them. Gives their number. -/
def runDue (fire : Fire α σ) : Nat → Queue α → σ → Option (Nat × Queue α × σ)
  | limit, q, s =>
    match q.due?, limit with
    | none, _ => some (0, q, s)
    | some _, 0 => none
    | some t, limit + 1 => do
      let (q, s) ← fire t (q.remove t.id) s
      let (ran, q, s) ← runDue fire limit q s
      return (ran + 1, q, s)

/-- Moves the clock and runs the tasks that are due then. Gives their number. -/
def advance (fire : Fire α σ) (limit : Nat) (elapsed : Nat) (q : Queue α) (s : σ) :
    Option (Nat × Queue α × σ) :=
  runDue fire limit { q with now := q.now + elapsed } s

/-- Moves the clock from task to task, at most `rounds` times, until no task is left. -/
def drain (fire : Fire α σ) (limit : Nat) : Nat → Queue α → σ → Option (Nat × Queue α × σ)
  | rounds, q, s =>
    match q.nextWakeup?, rounds with
    | none, _ => some (0, q, s)
    | some _, 0 => none
    | some wait, rounds + 1 => do
      let (ran, q, s) ← advance fire limit wait q s
      let (more, q, s) ← drain fire limit rounds q s
      return (ran + more, q, s)

/-- Runs all tasks, those that are scheduled meanwhile included. Gives their number. -/
def runAll (fire : Fire α σ) (limit : Nat) (q : Queue α) (s : σ) : Option (Nat × Queue α × σ) :=
  drain fire limit limit q s

/-! ### Laws -/

theorem pending_perm (q : Queue α) : q.pending.Perm q.tasks := List.mergeSort_perm _ _

theorem nextWakeup?_eq_none_iff {q : Queue α} : q.nextWakeup? = none ↔ q.tasks = [] := by
  simp [nextWakeup?]

theorem mem_tasks_remove {q : Queue α} {id : Nat} {t : Task α} :
    t ∈ (q.remove id).tasks ↔ t ∈ q.tasks ∧ t.id ≠ id := by
  simp [remove]

end Queue

end WorldScript
