import WorldScript.Proofs.Compile.Nesting
import WorldScript.Proofs.Program.Visits
import WorldScript.Proofs.Queue.Pending
import WorldScript.Proofs.Run.Points
import WorldScript.Proofs.Run.Settling

/-! # How far the clock can go

A delay is a number of 64 bits, and a block that was delayed can delay blocks of its own, but only
those that stand inside of it. When a queue is drained, a task runs exactly at its time. So a task
comes at most one delay after the one that scheduled it, and the nesting of the blocks, which is
limited, says how often that can happen. The times of all tasks and of the clock stay below a fixed
bound, which is far from what a clock can show, be there ever so many programs, loops and tasks.

The bound is on every moment, also on those in the middle of a program or of a task, and on runs
that never come to an end.

* `Queue.Timely`: no task is overdue, and its time leaves room for the delays that can follow.
* `Queue.Timely.tick`, `Queue.Timely.scheduleAll`: what draining and scheduling keep.
* `Statement.schedules_of_leads`: what has been scheduled at a point of a run.
* `Timeline.Moment`: all moments of a queue that is filled by programs and then drained.
* `Timeline.clock_bounded`: the bound. -/

namespace WorldScript

open Relation (ReflTransGen)

/-! ### Queues in time -/

namespace Queue

variable {α σ : Type}

/-- One step of draining a queue: the clock moves on to the next task, or the task that is to run
now does. -/
inductive DrainStep (fire : Fire α σ) : Queue α × σ → Queue α × σ → Prop
  | tick {q : Queue α} {s : σ} {wait : Nat} :
    q.nextWakeup? = some wait → DrainStep fire (q, s) ({ q with now := q.now + wait }, s)
  | task {q q' : Queue α} {s s' : σ} {t : Task α} :
    q.due? = some t → fire t (q.remove t.id) s = some (q', s') → DrainStep fire (q, s) (q', s')

variable {fire : Fire α σ} {q q' : Queue α} {s s' : σ} {limit n : Nat}

theorem runDue_steps (h : runDue fire limit q s = some (n, q', s')) :
    ReflTransGen (DrainStep fire) (q, s) (q', s') := by
  induction limit generalizing q s n with
  | zero =>
    obtain ⟨-, -, rfl, rfl⟩ | ⟨t, less, m, q₁, s₁, -, hless, -⟩ := runDue_cases h
    · exact .refl
    · omega
  | succ limit ih =>
    obtain ⟨-, -, rfl, rfl⟩ | ⟨t, less, m, q₁, s₁, hdue, hless, -, hfire, hrest⟩ := runDue_cases h
    · exact .refl
    · obtain rfl : limit = less := by omega
      exact .head (.task hdue hfire) (ih hrest)

/-- Draining a queue takes such steps. -/
theorem drain_steps {rounds : Nat} (h : drain fire limit rounds q s = some (n, q', s')) :
    ReflTransGen (DrainStep fire) (q, s) (q', s') := by
  induction rounds generalizing q s n with
  | zero =>
    obtain ⟨-, -, rfl, rfl⟩ | ⟨wait, less, m₁, m₂, q₁, s₁, -, hless, -⟩ := drain_cases h
    · exact .refl
    · omega
  | succ rounds ih =>
    obtain ⟨-, -, rfl, rfl⟩ | ⟨wait, less, m₁, m₂, q₁, s₁, hwait, hless, -, hround, hrest⟩ :=
      drain_cases h
    · exact .refl
    · obtain rfl : rounds = less := by omega
      exact (ReflTransGen.head (.tick hwait) (runDue_steps hround)).trans (ih hrest)

/-- No task is overdue, and after each task there is room below the bound for as many of the longest
delays as its rank says. -/
structure Timely (rank : α → Nat) (longest bound : Nat) (q : Queue α) : Prop where
  waits : ∀ t ∈ q.tasks, q.now ≤ t.due
  room : ∀ t ∈ q.tasks, t.due + rank t.payload * longest ≤ bound
  clock : q.now ≤ bound

namespace Timely

variable {rank : α → Nat} {longest bound : Nat} (h : q.Timely rank longest bound)

include h

theorem due_le {t : Task α} (ht : t ∈ q.tasks) : t.due ≤ bound :=
  Nat.le_trans (Nat.le_add_right ..) (h.room t ht)

theorem remove (id : Nat) : (q.remove id).Timely rank longest bound where
  waits t ht := h.waits t (mem_tasks_remove.mp ht).1
  room t ht := h.room t (mem_tasks_remove.mp ht).1
  clock := h.clock

/-- The clock moves to the time of some task, which is the first. -/
theorem tick {wait : Nat} (hwait : q.nextWakeup? = some wait) :
    Timely rank longest bound { q with now := q.now + wait } := by
  obtain ⟨hmem, hfirst⟩ := List.min?_eq_some_iff.mp hwait
  obtain ⟨first, hin, rfl⟩ := List.mem_map.mp hmem
  have hnow : q.now + q.remaining first = first.due := Nat.add_sub_cancel' (h.waits first hin)
  refine ⟨fun t ht => ?_, h.room, ?_⟩
  · have hle := hfirst _ (List.mem_map_of_mem ht)
    have hwaits := h.waits t ht
    unfold remaining at hle ⊢
    dsimp only
    omega
  · rw [hnow]
    exact h.due_le hin

/-- A task that is to run now runs at its time, so there is room for the delays after it. -/
theorem room_of_due {t : Task α} (hdue : q.due? = some t) :
    q.now + rank t.payload * longest ≤ bound := by
  obtain ⟨hmem, hnow, -⟩ := due?_eq_some hdue
  have hwaits := h.waits t hmem
  have hroom := h.room t hmem
  omega

/-- What is scheduled where there is room for more delays than its rank says is in time. -/
theorem scheduleAll {delays : Nat} (hroom : q.now + delays * longest ≤ bound)
    {requests : List (Nat × String × α)}
    (hrequests : ∀ r ∈ requests, r.1 ≤ longest ∧ rank r.2.2 < delays) :
    (q.scheduleAll requests).Timely rank longest bound := by
  obtain ⟨added, htasks, hadded⟩ := q.tasks_scheduleAll requests
  have hnow := q.now_scheduleAll requests
  refine ⟨fun t ht => ?_, fun t ht => ?_, hnow ▸ h.clock⟩
  · rw [hnow]
    rw [htasks] at ht
    rcases List.mem_append.mp ht with ht | ht
    · exact h.waits t ht
    · obtain ⟨r, -, -, hdue⟩ := hadded t ht
      omega
  · rw [htasks] at ht
    rcases List.mem_append.mp ht with ht | ht
    · exact h.room t ht
    · obtain ⟨r, hr, hpayload, hdue⟩ := hadded t ht
      obtain ⟨hdelay, hrank⟩ := hrequests r hr
      have hmul : (rank r.2.2 + 1) * longest ≤ delays * longest := Nat.mul_le_mul_right _ hrank
      rw [Nat.succ_mul] at hmul
      rw [hdue, hpayload]
      omega

end Timely

end Queue

/-! ### What has been scheduled at a point of a run -/

namespace Statement

open Machine (Schedules)

variable {limit : Nat} {s : Statement} {m m' : Machine} {stage : Stage} {l : List Statement}

theorem schedules_of_turnAt (hs : s ∈ l) {n : Nat} {stage' : Stage}
    (h : TurnAt limit s n stage m stage' m') : m.Schedules (Delays l) m' := by
  induction h with
  | here => exact .of_queue rfl
  | @next n stage stage' last m m₁ m₂ m₃ e signal hturn hrun _ _ ih =>
    have hqueue := s.queue_turn stage m
    rw [hturn] at hqueue
    have hbegun : m.Schedules (Delays l) m₁ := .of_queue hqueue
    have hblock := entry_schedules (runAll_schedules limit e.body) hrun
    exact (hbegun.trans (hblock.mono fun _ => .inside hs (turn_block hturn).1)).trans ih

theorem schedules_of_enters (hs : s ∈ l) {e : Entry} {inside : Machine}
    (h : s.Enters limit m e inside) : m.Schedules (Delays l) inside := by
  obtain ⟨stage, stage', m₁, m₂, ⟨first, m₀, hstart, hat⟩, hturn, hopen⟩ := h
  have hbegun : m.Schedules (Delays l) m₀ := .of_queue (queue_of_start hstart)
  have hqueue := s.queue_turn stage m₁
  rw [hturn] at hqueue
  have hinside : m₁.Schedules (Delays l) inside :=
    .of_queue ((queue_of_open? hopen).trans hqueue)
  exact (hbegun.trans (schedules_of_turnAt hs hat)).trans hinside

/-- **At every point of a run** the queue is the one it began with and some blocks of its delays.
The statements that are left have no other delays. -/
theorem schedules_of_leads {p : Place} {Q : Point}
    (h : Point.Leads limit ⟨p, l, m⟩ Q) :
    m.Schedules (Delays l) Q.machine ∧ ∀ body, Delays Q.rest body → Delays l body := by
  induction h with
  | refl => exact ⟨.of_queue rfl, fun _ hbody => hbody⟩
  | tail _ hstep ih =>
    obtain ⟨hschedules, hdelays⟩ := ih
    cases hstep with
    | @past p s rest m₁ m₂ hrun =>
      have hran := run_schedules (l := s :: rest) List.mem_cons_self
        (fun body _ => runAll_schedules limit body) hrun
      exact ⟨hschedules.trans (hran.mono hdelays), fun body hbody => hdelays body (hbody.cons s)⟩
    | @into p s rest m₁ inside e henters =>
      have hentered := schedules_of_enters (l := s :: rest) List.mem_cons_self henters
      obtain ⟨stage, stage', m₂, m₃, -, hturn, -⟩ := henters
      refine ⟨hschedules.trans (hentered.mono hdelays), fun body hbody => hdelays body ?_⟩
      exact .inside List.mem_cons_self (turn_block hturn).1 hbody

/-! ### Nesting -/

theorem nestings_lt_of_delays {l body : List Statement} (h : Delays l body) :
    nestings body < nestings l := by
  induction h with
  | @here l body line duration hmem =>
    have hle := nestings_le_iff.mp (Nat.le_refl (nestings l)) _ hmem
    rw [nesting] at hle
    omega
  | @inside l block body s hmem hblock _ ih =>
    have hle := nestings_le_iff.mp (Nat.le_refl (nestings l)) _ hmem
    have hblock := nesting_le_succ_iff.mp (Nat.le_succ_of_le hle) _ hblock
    omega

end Statement

/-- Under the same settings the lines compile again, so no block is too deep for them. -/
theorem nestings_le_of_compileSequence {ctx : Context} {scope : Scope} {lines : List Line}
    {l : List Statement} (h : compileSequence ctx scope lines = .ok l) :
    Statement.nestings l ≤ ctx.settings.maxNesting := by
  rw [compileSequence_eq] at h
  have hcapped : compileAll ctx.settings.maxNesting ctx scope lines =
      capped ctx.settings.maxNesting (Statement.openedAll ctx.settings.maxNesting l) l :=
    compileAll_capped ctx.settings _ id h
  exact Statement.openedAll_eq_nil_iff.mp (deep_eq_nil_of_capped (hcapped.symm.trans h))

/-- The blocks of a compiled program are nested no deeper than the settings allow. -/
theorem Definition.nestings_le_of_compile {library : Library} {settings : Settings} {d : Definition}
    {p : Program} (h : d.compile library settings = .ok p) :
    Statement.nestings p.body ≤ settings.maxNesting := by
  simp only [Definition.compile, compileBody, bind_eq_ok_iff] at h
  obtain ⟨scope, -, body, ⟨l, hl, hbody⟩, hp⟩ := h
  have hsame : l = body := by
    split at hbody
    · exact absurd hbody failAt_ne_ok
    · exact pure_eq_ok_iff.mp hbody
  rw [pure_eq_ok_iff] at hp
  subst hp hsame
  exact nestings_le_of_compileSequence hl

/-! ### The moments of a queue -/

/-- What a clock cannot show any more, in milliseconds: its seconds have 64 bits. -/
def clockLimit : Nat := 1000 * Nat.pow 2 64

/-- The longest delay, as often as blocks can be nested. -/
def latestTime : Nat := Settings.nestingLimit * longestDelay

/-- The program was compiled under settings that a text can ask for. -/
def Program.WithinLimit (p : Program) : Prop :=
  ∃ library settings d, settings.maxNesting ≤ Settings.nestingLimit ∧
    Definition.compile library settings d = .ok p

/-- The queue at some point of a run. -/
def Machine.Shows (m : Machine) (l : List Statement) (q : Queue DelayedBlock) : Prop :=
  ∃ limit place Q, Point.Leads limit ⟨place, l, m⟩ Q ∧ Q.machine.queue = some q

namespace Timeline

/-- A queue after some programs have run with it, one after the other, at time zero. Between them
the world may change. -/
inductive Filled : Queue DelayedBlock → Prop
  | new : Filled .empty
  | ran {q q' : Queue DelayedBlock} {p : Program} {limit : Nat} {arguments : List Value}
    {w : World} {outcome : Outcome} :
    Filled q → p.WithinLimit → p.run limit arguments (some q) w = some outcome →
    outcome.queue = some q' → Filled q'

/-- A queue that was filled and is being drained, between two tasks, and the world. -/
def Drained (limit : Nat) (q : Queue DelayedBlock) (w : World) : Prop :=
  ∃ q₀ w₀, Filled q₀ ∧ ReflTransGen (Queue.DrainStep (DelayedBlock.fire limit)) (q₀, w₀) (q, w)

/-- **The moments of a queue**: while a program fills it, while it is drained, and while one of its
tasks runs. -/
inductive Moment : Queue DelayedBlock → Prop
  | filling {q q' : Queue DelayedBlock} {p : Program} {arguments : List Value} {w : World}
    {m : Machine} : Filled q → p.WithinLimit → p.start arguments (some q) w = .ok m →
    m.Shows p.body q' → Moment q'
  | draining {q : Queue DelayedBlock} {w : World} {limit : Nat} : Drained limit q w → Moment q
  | running {q q' : Queue DelayedBlock} {w : World} {limit : Nat} {t : Task DelayedBlock} :
    Drained limit q w → q.due? = some t →
    (t.payload.start (q.remove t.id) w).Shows t.payload.body q' → Moment q'

/-- Every task has room for as many delays as the blocks of its statements are nested. -/
def Timely (q : Queue DelayedBlock) : Prop :=
  q.Timely (fun b => Statement.nestings b.body) longestDelay latestTime

variable {q q' : Queue DelayedBlock} {l : List Statement} {m m' : Machine}

/-- What statements schedule is in time, if there is room for the nesting of their blocks. -/
theorem timely_of_schedules (hq : Timely q)
    (hroom : q.now + Statement.nestings l * longestDelay ≤ latestTime) (hm : m.queue = some q)
    (h : m.Schedules (Statement.Delays l) m') (hm' : m'.queue = some q') :
    Timely q' ∧ q'.now = q.now := by
  obtain ⟨requests, hrequests, hqueue⟩ := h
  rw [hm', hm, Option.map_some, Option.some.injEq] at hqueue
  subst hqueue
  refine ⟨hq.scheduleAll hroom fun r hr => ?_, q.now_scheduleAll requests⟩
  obtain ⟨hdelay, hbody⟩ := hrequests r hr
  exact ⟨hdelay, Statement.nestings_lt_of_delays hbody⟩

theorem timely_of_shows (hq : Timely q)
    (hroom : q.now + Statement.nestings l * longestDelay ≤ latestTime) (hm : m.queue = some q)
    (h : m.Shows l q') : Timely q' := by
  obtain ⟨limit, place, Q, hleads, hqueue⟩ := h
  exact (timely_of_schedules hq hroom hm (Statement.schedules_of_leads hleads).1 hqueue).1

/-- At time zero there is room for every program. -/
theorem room_of_withinLimit {p : Program} (hp : p.WithinLimit) (hnow : q.now = 0) :
    q.now + Statement.nestings p.body * longestDelay ≤ latestTime := by
  obtain ⟨library, settings, d, hsettings, hcompile⟩ := hp
  have hnesting := Nat.le_trans (Definition.nestings_le_of_compile hcompile) hsettings
  rw [hnow, Nat.zero_add]
  exact Nat.mul_le_mul_right longestDelay hnesting

theorem Filled.timely (h : Filled q) : Timely q ∧ q.now = 0 := by
  induction h with
  | new => exact ⟨⟨by simp [Queue.empty], by simp [Queue.empty], Nat.zero_le _⟩, rfl⟩
  | @ran q q' p limit arguments w outcome _ hp hrun hqueue ih =>
    obtain ⟨hq, hnow⟩ := ih
    unfold Program.run at hrun
    split at hrun
    · cases hrun
      cases hqueue
      exact ⟨hq, hnow⟩
    · rename_i m hstart
      obtain ⟨⟨signal, m'⟩, hbody, rfl⟩ := Option.map_eq_some_iff.mp hrun
      obtain ⟨vars, heap, -, rfl⟩ := Program.start_eq_ok hstart
      have hschedules := Statement.runAll_schedules limit p.body _ _ _ hbody
      obtain ⟨hq', hnow'⟩ :=
        timely_of_schedules hq (room_of_withinLimit hp hnow) rfl hschedules hqueue
      exact ⟨hq', hnow'.trans hnow⟩

/-- **What one step of draining keeps.** -/
theorem timely_of_drainStep {limit : Nat} {w w' : World} (hq : Timely q)
    (h : Queue.DrainStep (DelayedBlock.fire limit) (q, w) (q', w')) : Timely q' := by
  cases h with
  | tick hwait => exact hq.tick hwait
  | @task _ _ _ _ t hdue hfire =>
    obtain ⟨requests, hrequests, rfl⟩ := DelayedBlock.schedules_of_fire hfire
    refine (hq.remove t.id).scheduleAll (hq.room_of_due hdue) fun r hr => ?_
    obtain ⟨hdelay, hbody⟩ := hrequests r hr
    exact ⟨hdelay, Statement.nestings_lt_of_delays hbody⟩

theorem Drained.timely {limit : Nat} {w : World} (h : Drained limit q w) : Timely q := by
  obtain ⟨q₀, w₀, hfilled, hsteps⟩ := h
  generalize hx : (q₀, w₀) = x at hsteps
  generalize hy : (q, w) = y at hsteps
  induction hsteps generalizing q w with
  | refl =>
    cases hx.trans hy.symm
    exact hfilled.timely.1
  | @tail y' _ _ hstep ih =>
    subst hy
    exact timely_of_drainStep (ih rfl) hstep

theorem Moment.timely (h : Moment q) : Timely q := by
  cases h with
  | @filling q₀ _ p arguments w m hfilled hp hstart hshows =>
    obtain ⟨hq, hnow⟩ := hfilled.timely
    obtain ⟨vars, heap, -, rfl⟩ := Program.start_eq_ok hstart
    exact timely_of_shows hq (room_of_withinLimit hp hnow) rfl hshows
  | draining hdrained => exact hdrained.timely
  | running hdrained hdue hshows =>
    exact timely_of_shows (hdrained.timely.remove _) (hdrained.timely.room_of_due hdue) rfl hshows

/-- **The clock does not go beyond its limit.** Let any number of programs, whose blocks are nested
no deeper than settings can ask for, fill a new queue at time zero, and drain it then. At every
moment, also in the middle of a program or a task, the clock and the times at which tasks are due
are at most as many of the longest delays as blocks can be nested, which a clock can show. What
`Queue.runAll` leaves is such a moment. -/
theorem clock_bounded :
    (∀ q, Moment q → q.now ≤ latestTime ∧ ∀ t ∈ q.tasks, t.due ≤ latestTime) ∧
    latestTime = 256 * (Nat.pow 2 64 - 1) ∧ latestTime < clockLimit ∧
    ∀ q, Filled q → ∀ limit bound w n q' w',
      Queue.runAll (DelayedBlock.fire limit) bound q w = some (n, q', w') →
      Moment q' ∧ q'.tasks = [] := by
  refine ⟨fun q hq => ⟨hq.timely.clock, fun t ht => hq.timely.due_le ht⟩, by decide, by decide, ?_⟩
  intro q hq limit bound w n q' w' hrun
  exact ⟨.draining ⟨q, w, hq, Queue.drain_steps hrun⟩, Queue.drain_leaves hrun⟩

/-- A program that waits as long as is possible, and then once more. -/
def waitTwice : Definition where
  name := "waiting"
  returns := .void
  parameters := []
  source := "delay (99999999999999999999)\ndelay (99999999999999999999)\nend delay\nend delay"

/-- The times of the tasks with which the program of a definition fills a queue, and the clock of
the queue after it was drained. -/
def times? (d : Definition) : Option (List Nat × Nat) := do
  let p ← (d.compile .standard {}).toOption
  let outcome ← p.run 1 [] (some .empty) ⟨.empty, []⟩
  let q ← outcome.queue
  let (_, drained, _) ← Queue.runAll (DelayedBlock.fire 1) 3 q outcome.world
  return (q.tasks.map Task.due, drained.now)

theorem times?_waitTwice : times? waitTwice = some ([longestDelay], 2 * longestDelay) := by
  decide +kernel

theorem clock_bounded_waitTwice :
    ∃ q w n q' w', Filled q ∧ Queue.runAll (DelayedBlock.fire 1) 3 q w = some (n, q', w') ∧
      q.tasks.map Task.due = [longestDelay] ∧ q'.now = 2 * longestDelay ∧
      (∀ t ∈ q.tasks, t.due ≤ latestTime) ∧ q'.now ≤ latestTime ∧ q'.tasks = [] := by
  have htimes := times?_waitTwice
  simp only [times?, Option.bind_eq_bind, Option.bind_eq_some_iff, Option.pure_def,
    Option.some.injEq, Prod.mk.injEq, Prod.exists] at htimes
  obtain ⟨p, hcompile, outcome, hrun, q, hqueue, n, q', w', hdrain, htasks, hnow⟩ := htimes
  have hcompiled : waitTwice.compile .standard {} = .ok p := by
    cases h : waitTwice.compile .standard {} with
    | error e =>
      rw [h] at hcompile
      cases hcompile
    | ok p' =>
      rw [h] at hcompile
      exact congrArg Except.ok (Option.some.inj hcompile)
  have hp : p.WithinLimit := ⟨.standard, {}, waitTwice, by decide, hcompiled⟩
  have hfilled : Filled q := .ran .new hp hrun hqueue
  obtain ⟨hmoments, -, -, hdrains⟩ := clock_bounded
  obtain ⟨hmoment, hempty⟩ := hdrains q hfilled _ _ _ _ _ _ hdrain
  have hbegun : Drained 1 q outcome.world := ⟨q, _, hfilled, .refl⟩
  exact ⟨q, _, n, q', w', hfilled, hdrain, htasks, hnow, (hmoments q (.draining hbegun)).2,
    (hmoments q' hmoment).1, hempty⟩

end Timeline

end WorldScript
