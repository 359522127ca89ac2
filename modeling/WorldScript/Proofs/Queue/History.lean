import Mathlib.Logic.Relation
import WorldScript.Proofs.Queue.Order

/-! # The history of a queue

A journal is a queue together with what happened to it: the tasks that were scheduled, those that
ran and when, and those that were removed or cleared. It is written move by move. A task that runs
is taken out of the queue in one move, and what it schedules are moves of their own, so the states
that a task sees in the middle of a run belong to the history as those between two calls do.

What is known of every journal is proved for one move (`Journal.Move.orderly`) and so holds after
any number of them: however tasks and host take turns, and also in a run that never comes to an end.
`Queue.advance` and `Queue.runAll` are then shown to make such moves.

* `Journal.Sound`: numbers, times, order and fate of the tasks.
* `Journal.Reachable.orderly`: every journal of an empty queue is sound.
* `Journal.runDue_fires`, `Journal.drain_rounds`: what the loops write into the journal.
* `Journal.history_sound`: the history as a whole. -/

namespace WorldScript

open Relation (ReflTransGen)

variable {α σ : Type}

/-! ### What is scheduled while a task runs -/

/-- The queue with several more tasks, each given by its delay, description and payload. -/
def Queue.scheduleAll (q : Queue α) (requests : List (Nat × String × α)) : Queue α :=
  requests.foldl (fun q r => q.schedule r.1 r.2.1 r.2.2) q

/-- All that tasks do to the queue is to schedule others. -/
def Queue.Fire.OnlySchedules (fire : Queue.Fire α σ) : Prop :=
  ∀ t q s q' s', fire t q s = some (q', s') → ∃ requests, q' = q.scheduleAll requests

/-! ### Journals -/

/-- A queue and what happened to it. -/
structure Journal (α : Type) where
  queue : Queue α
  scheduled : List (Task α)
  /-- The tasks that ran, and when. -/
  ran : List (Task α × Nat)
  removed : List (Task α)
  cleared : List (Task α)

namespace Journal

/-- The journal of a new queue. -/
def blank : Journal α := ⟨.empty, [], [], [], []⟩

def schedule (j : Journal α) (delay : Nat) (description : String) (payload : α) : Journal α :=
  { j with
    queue := j.queue.schedule delay description payload
    scheduled := j.scheduled ++ [⟨j.queue.lastId + 1, description, j.queue.now + delay, payload⟩] }

def scheduleAll (j : Journal α) (requests : List (Nat × String × α)) : Journal α :=
  requests.foldl (fun j r => j.schedule r.1 r.2.1 r.2.2) j

def remove (j : Journal α) (id : Nat) : Journal α :=
  { j with
    queue := j.queue.remove id
    removed := j.removed ++ j.queue.tasks.filter (·.id = id) }

def clear (j : Journal α) : Journal α :=
  { j with
    queue := j.queue.clear
    cleared := j.cleared ++ j.queue.tasks }

/-- The clock moves. -/
def tick (j : Journal α) (elapsed : Nat) : Journal α :=
  { j with queue := { j.queue with now := j.queue.now + elapsed } }

/-- A task is taken out of the queue to run. -/
def take (j : Journal α) (t : Task α) : Journal α :=
  { j with
    queue := j.queue.remove t.id
    ran := j.ran ++ [(t, j.queue.now)] }

/-- What can happen next. The task that runs is the one that the queue says is to run. -/
inductive Move : Journal α → Journal α → Prop
  | schedule {j : Journal α} (delay : Nat) (description : String) (payload : α) :
    Move j (j.schedule delay description payload)
  | remove {j : Journal α} (id : Nat) : Move j (j.remove id)
  | clear {j : Journal α} : Move j j.clear
  | tick {j : Journal α} (elapsed : Nat) : Move j (j.tick elapsed)
  | take {j : Journal α} {t : Task α} : j.queue.due? = some t → Move j (j.take t)

/-- The journal of a queue that was empty at the beginning. -/
def Reachable (j : Journal α) : Prop := ReflTransGen Move blank j

/-! ### What holds of every journal -/

/-- Numbers grow in the order of scheduling, no task runs before it is due, tasks run in the order
`Task.Earlier` from the first to the last, and each task that was scheduled has had one fate: it ran,
was removed or cleared, or still waits. As no two tasks have one number, it has had that fate
once and no other. -/
structure Sound (j : Journal α) : Prop where
  numbers : j.scheduled.Pairwise fun a b => a.id < b.id
  onTime : ∀ r ∈ j.ran, r.1.due ≤ r.2
  ordered : (j.ran.map Prod.fst).Pairwise Task.Earlier
  fates : j.scheduled.Perm (j.ran.map Prod.fst ++ (j.removed ++ (j.cleared ++ j.queue.tasks)))

/-- What a move keeps. The order of the tasks that ran goes on since each of them is earlier than
whatever still waits, which in turn needs that nothing ran after the present time. -/
structure Orderly (j : Journal α) : Prop extends Sound j where
  numbered : ∀ t ∈ j.scheduled, t.id ≤ j.queue.lastId
  past : ∀ r ∈ j.ran, r.2 ≤ j.queue.now
  ahead : ∀ r ∈ j.ran, ∀ t ∈ j.queue.tasks, r.1.Earlier t

theorem blank_orderly : (blank : Journal α).Orderly := by
  constructor
  · constructor <;> simp [blank, Queue.empty]
  all_goals simp [blank]

theorem Sound.nodup {j : Journal α} (h : j.Sound) : (j.queue.tasks.map Task.id).Nodup := by
  have hscheduled : (j.scheduled.map Task.id).Nodup := by
    rw [List.Nodup, List.pairwise_map]
    exact h.numbers.imp fun hlt => Nat.ne_of_lt hlt
  have hfates := (h.fates.map Task.id).nodup_iff.mp hscheduled
  refine hfates.sublist (List.Sublist.map Task.id ?_)
  exact (List.sublist_append_right ..).trans
    ((List.sublist_append_right ..).trans (List.sublist_append_right ..))

/-- A task that ran was scheduled. -/
theorem Sound.scheduled_of_ran {j : Journal α} (h : j.Sound) {r : Task α × Nat} (hr : r ∈ j.ran) :
    r.1 ∈ j.scheduled :=
  h.fates.mem_iff.mpr (List.mem_append_left _ (List.mem_map_of_mem hr))

/-- Waiting tasks go to one of the other fates. -/
theorem perm_append_moved {waiting moved left : List (Task α)} (gone rest : List (Task α))
    (h : waiting.Perm (moved ++ left)) :
    (gone ++ (rest ++ waiting)).Perm (gone ++ moved ++ (rest ++ left)) := by
  rw [List.append_assoc]
  refine List.Perm.append_left gone ?_
  exact (h.append_left rest).trans (List.perm_append_comm_assoc ..)

section Moves

variable {j : Journal α} (h : j.Orderly)
include h

theorem schedule_orderly (delay : Nat) (description : String) (payload : α) :
    (j.schedule delay description payload).Orderly where
  numbers := by
    refine List.pairwise_append.mpr ⟨h.numbers, List.pairwise_singleton .., ?_⟩
    intro a ha b hb
    rw [List.mem_singleton] at hb
    subst hb
    exact Nat.lt_succ_of_le (h.numbered a ha)
  onTime := h.onTime
  ordered := h.ordered
  fates := by
    simp only [schedule, Queue.schedule, ← List.append_assoc]
    refine List.Perm.append_right _ ?_
    simpa only [List.append_assoc] using h.fates
  numbered := by
    intro t ht
    rcases List.mem_append.mp ht with ht | ht
    · exact Nat.le_succ_of_le (h.numbered t ht)
    · rw [List.mem_singleton] at ht
      subst ht
      exact Nat.le_refl _
  past := h.past
  ahead := by
    intro r hr t ht
    rcases List.mem_append.mp ht with ht | ht
    · exact h.ahead r hr t ht
    · -- the new task may be due at once, but it has the greatest number
      rw [List.mem_singleton] at ht
      subst ht
      have hdue := h.onTime r hr
      have hpast := h.past r hr
      have hid := h.numbered r.1 (h.scheduled_of_ran hr)
      simp only [Task.Earlier]
      omega

theorem remove_orderly (id : Nat) : (j.remove id).Orderly where
  numbers := h.numbers
  onTime := h.onTime
  ordered := h.ordered
  fates := by
    have hsplit : j.queue.tasks.Perm
        (j.queue.tasks.filter (·.id = id) ++ (j.queue.remove id).tasks) := by
      simpa [Queue.remove] using (List.filter_append_perm (fun t => t.id = id) j.queue.tasks).symm
    have hmoved := perm_append_moved j.removed j.cleared hsplit
    exact h.fates.trans (hmoved.append_left _)
  numbered := h.numbered
  past := h.past
  ahead := fun r hr t ht => h.ahead r hr t (Queue.mem_tasks_remove.mp ht).1

theorem clear_orderly : j.clear.Orderly where
  numbers := h.numbers
  onTime := h.onTime
  ordered := h.ordered
  fates := by simpa [clear, Queue.clear] using h.fates
  numbered := h.numbered
  past := h.past
  ahead := fun _ _ _ ht => absurd ht List.not_mem_nil

theorem tick_orderly (elapsed : Nat) : (j.tick elapsed).Orderly where
  toSound := ⟨h.numbers, h.onTime, h.ordered, h.fates⟩
  numbered := h.numbered
  past := fun r hr => Nat.le_add_right_of_le (h.past r hr)
  ahead := h.ahead

theorem take_orderly {t : Task α} (ht : j.queue.due? = some t) : (j.take t).Orderly := by
  obtain ⟨hmem, hnow, hfirst⟩ := Queue.due?_eq_some ht
  exact {
    numbers := h.numbers
    onTime := by
      intro r hr
      rcases List.mem_append.mp hr with hr | hr
      · exact h.onTime r hr
      · rw [List.mem_singleton] at hr
        subst hr
        exact hnow
    ordered := by
      simp only [take, List.map_append, List.map_cons, List.map_nil]
      refine List.pairwise_append.mpr ⟨h.ordered, List.pairwise_singleton .., ?_⟩
      intro a ha b hb
      obtain ⟨r, hr, rfl⟩ := List.mem_map.mp ha
      rw [List.mem_singleton] at hb
      subst hb
      exact h.ahead r hr _ hmem
    fates := by
      have hsplit := Queue.perm_cons_remove h.nodup hmem
      rw [← List.singleton_append] at hsplit
      have hmoved := perm_append_moved (j.ran.map Prod.fst) (j.removed ++ j.cleared) hsplit
      simp only [take, List.map_append, List.map_cons, List.map_nil]
      simp only [List.append_assoc] at hmoved ⊢
      exact h.fates.trans hmoved
    numbered := h.numbered
    past := by
      intro r hr
      rcases List.mem_append.mp hr with hr | hr
      · exact h.past r hr
      · rw [List.mem_singleton] at hr
        subst hr
        exact Nat.le_refl _
    ahead := by
      intro r hr u hu
      obtain ⟨hu, hid⟩ := Queue.mem_tasks_remove.mp hu
      rcases List.mem_append.mp hr with hr | hr
      · exact h.ahead r hr u hu
      · rw [List.mem_singleton] at hr
        subst hr
        by_cases hdue : u.due ≤ j.queue.now
        · exact Task.earlier_of_not hid.symm (hfirst u hu hdue)
        · exact Task.earlier_of_due_lt (by dsimp only; omega) }

end Moves

theorem Move.orderly {j j' : Journal α} (hmove : Move j j') (h : j.Orderly) : j'.Orderly := by
  cases hmove with
  | schedule delay description payload => exact schedule_orderly h delay description payload
  | remove id => exact remove_orderly h id
  | clear => exact clear_orderly h
  | tick elapsed => exact tick_orderly h elapsed
  | take ht => exact take_orderly h ht

theorem Reachable.orderly {j : Journal α} (h : j.Reachable) : j.Orderly := by
  induction h with
  | refl => exact blank_orderly
  | tail _ hmove ih => exact hmove.orderly ih

/-! ### Tasks that schedule others -/

theorem scheduleAll_queue (j : Journal α) (requests : List (Nat × String × α)) :
    (j.scheduleAll requests).queue = j.queue.scheduleAll requests := by
  induction requests generalizing j with
  | nil => rfl
  | cons r requests ih => exact ih _

theorem scheduleAll_ran (j : Journal α) (requests : List (Nat × String × α)) :
    (j.scheduleAll requests).ran = j.ran := by
  induction requests generalizing j with
  | nil => rfl
  | cons r requests ih => exact ih _

theorem moves_scheduleAll (j : Journal α) (requests : List (Nat × String × α)) :
    ReflTransGen Move j (j.scheduleAll requests) := by
  induction requests generalizing j with
  | nil => exact .refl
  | cons r requests ih => exact .head (.schedule r.1 r.2.1 r.2.2) (ih _)

/-- **One task runs**: the one that is to run now is taken, and the journal says what it
schedules. -/
inductive Fires (fire : Queue.Fire α σ) : Journal α × σ → Journal α × σ → Prop
  | intro {j : Journal α} {s s' : σ} {t : Task α} {requests : List (Nat × String × α)} :
    j.queue.due? = some t →
    fire t (j.queue.remove t.id) s = some ((j.queue.remove t.id).scheduleAll requests, s') →
    Fires fire (j, s) ((j.take t).scheduleAll requests, s')

/-- **The clock moves on to the next task**, and tasks run until none is due. -/
def Round (fire : Queue.Fire α σ) (x y : Journal α × σ) : Prop :=
  ∃ wait, x.1.queue.nextWakeup? = some wait ∧
    ReflTransGen (Fires fire) (x.1.tick wait, x.2) y ∧
    ∀ t ∈ y.1.queue.tasks, y.1.queue.now < t.due

variable {fire : Queue.Fire α σ}

theorem Fires.moves {x y : Journal α × σ} (h : Fires fire x y) : ReflTransGen Move x.1 y.1 := by
  cases h with
  | intro ht _ => exact .head (.take ht) (moves_scheduleAll _ _)

theorem Reachable.of_fires {x y : Journal α × σ} (hx : x.1.Reachable)
    (h : ReflTransGen (Fires fire) x y) : y.1.Reachable := by
  induction h with
  | refl => exact hx
  | tail _ hfires ih => exact ih.trans hfires.moves

theorem Reachable.of_rounds {x y : Journal α × σ} (hx : x.1.Reachable)
    (h : ReflTransGen (Round fire) x y) : y.1.Reachable := by
  induction h with
  | refl => exact hx
  | tail _ hround ih =>
    obtain ⟨wait, -, hfires, -⟩ := hround
    exact of_fires (ReflTransGen.tail ih (.tick wait)) hfires

/-! ### The loops -/

/-- The tasks that are due are run one after the other, until none is. -/
theorem runDue_fires (hfire : fire.OnlySchedules) {limit n : Nat} {j : Journal α} {s s' : σ}
    {q' : Queue α} (h : Queue.runDue fire limit j.queue s = some (n, q', s')) :
    ∃ j' : Journal α, j'.queue = q' ∧ ReflTransGen (Fires fire) (j, s) (j', s') ∧
      j'.ran.length = j.ran.length + n ∧ ∀ t ∈ q'.tasks, q'.now < t.due := by
  induction limit using Nat.strongRecOn generalizing j s n with
  | ind limit ih =>
    rcases Queue.runDue_cases h with
      ⟨hdue, rfl, rfl, rfl⟩ | ⟨t, less, m, q₁, s₁, hdue, rfl, rfl, hfired, hrest⟩
    · exact ⟨j, rfl, .refl, rfl, Queue.due?_eq_none_iff.mp hdue⟩
    · obtain ⟨requests, rfl⟩ := hfire _ _ _ _ _ hfired
      have hqueue : ((j.take t).scheduleAll requests).queue
          = (j.queue.remove t.id).scheduleAll requests := scheduleAll_queue _ _
      rw [← hqueue] at hrest
      obtain ⟨j', hqueue', hfires, hlength, hnone⟩ := ih less (Nat.lt_succ_self less) hrest
      refine ⟨j', hqueue', .head (.intro hdue hfired) hfires, ?_, hnone⟩
      rw [hlength, scheduleAll_ran]
      simp only [take, List.length_append, List.length_singleton]
      omega

theorem advance_fires (hfire : fire.OnlySchedules) {limit elapsed n : Nat} {j : Journal α}
    {s s' : σ} {q' : Queue α}
    (h : Queue.advance fire limit elapsed j.queue s = some (n, q', s')) :
    ∃ j' : Journal α, j'.queue = q' ∧ ReflTransGen (Fires fire) (j.tick elapsed, s) (j', s') ∧
      j'.ran.length = j.ran.length + n ∧ ∀ t ∈ q'.tasks, q'.now < t.due :=
  runDue_fires (j := j.tick elapsed) hfire h

/-- The clock is moved from task to task, until none is left. -/
theorem drain_rounds (hfire : fire.OnlySchedules) {limit rounds n : Nat} {j : Journal α}
    {s s' : σ} {q' : Queue α}
    (h : Queue.drain fire limit rounds j.queue s = some (n, q', s')) :
    ∃ j' : Journal α, j'.queue = q' ∧ ReflTransGen (Round fire) (j, s) (j', s') ∧
      j'.ran.length = j.ran.length + n ∧ q'.tasks = [] := by
  induction rounds using Nat.strongRecOn generalizing j s n with
  | ind rounds ih =>
    rcases Queue.drain_cases h with
      ⟨hwait, rfl, rfl, rfl⟩ | ⟨wait, less, m₁, m₂, q₁, s₁, hwait, rfl, rfl, hadvance, hrest⟩
    · exact ⟨j, rfl, .refl, rfl, Queue.nextWakeup?_eq_none_iff.mp hwait⟩
    · obtain ⟨j₁, rfl, hfires, hlength₁, hnone⟩ := advance_fires hfire hadvance
      obtain ⟨j', hqueue, hrounds, hlength₂, hempty⟩ := ih less (Nat.lt_succ_self less) hrest
      refine ⟨j', hqueue, .head ⟨wait, hwait, hfires, hnone⟩ hrounds, ?_, hempty⟩
      omega

/-- **The history of a queue.** Let tasks and host schedule, remove and clear in any order, with the
clock moved on and tasks run in between. At every moment numbers grow in the order of scheduling, no
task ran before it was due, the tasks that ran did so in the order of their times and numbers, and
every task ran once, was removed, was cleared or waits. From any such moment, `Queue.advance` moves
the clock and runs tasks one by one; it answers with their number and leaves none that is due.
`Queue.runAll` does so from task to task, and leaves none at all. -/
theorem history_sound {fire : Queue.Fire α σ} (hfire : fire.OnlySchedules) {j : Journal α}
    (hj : j.Reachable) :
    j.Sound ∧
    (∀ limit elapsed s n q s', Queue.advance fire limit elapsed j.queue s = some (n, q, s') →
      ∃ j' : Journal α, j'.Reachable ∧ j'.queue = q ∧
        ReflTransGen (Fires fire) (j.tick elapsed, s) (j', s') ∧
        j'.ran.length = j.ran.length + n ∧ ∀ t ∈ q.tasks, q.now < t.due) ∧
    (∀ limit s n q s', Queue.runAll fire limit j.queue s = some (n, q, s') →
      ∃ j' : Journal α, j'.Reachable ∧ j'.queue = q ∧
        ReflTransGen (Round fire) (j, s) (j', s') ∧
        j'.ran.length = j.ran.length + n ∧ q.tasks = []) := by
  refine ⟨hj.orderly.toSound, ?_, ?_⟩
  · intro limit elapsed s n q s' hadvance
    obtain ⟨j', hqueue, hfires, hlength, hnone⟩ := advance_fires hfire hadvance
    have htick : (j.tick elapsed).Reachable := ReflTransGen.tail hj (.tick elapsed)
    exact ⟨j', Reachable.of_fires htick hfires, hqueue, hfires, hlength, hnone⟩
  · intro limit s n q s' hrun
    obtain ⟨j', hqueue, hrounds, hlength, hempty⟩ := drain_rounds hfire hrun
    exact ⟨j', Reachable.of_rounds hj hrounds, hqueue, hrounds, hlength, hempty⟩

/-- A task with a number, which schedules one with the number before at once. -/
def countdown : Queue.Fire Nat Unit := fun t q s =>
  match t.payload with
  | 0 => some (q, s)
  | n + 1 => some (q.schedule 0 "next" n, s)

theorem countdown_onlySchedules : countdown.OnlySchedules := by
  intro t q s q' s' h
  unfold countdown at h
  split at h
  · cases h
    exact ⟨[], rfl⟩
  · rename_i n _
    cases h
    exact ⟨[(0, "next", n)], rfl⟩

/-- A countdown from two, beside another from zero that is due at the same time: the tasks that are
scheduled in the middle of the run come after it. -/
def twoCountdowns : Journal Nat := (blank.schedule 5 "first" 2).schedule 5 "second" 0

theorem history_sound_twoCountdowns :
    twoCountdowns.Sound ∧
    (∃ j' : Journal Nat, j'.Reachable ∧ j'.queue = ⟨[], 7, 4⟩ ∧ j'.ran.length = 4) ∧
    ∃ j' : Journal Nat, j'.Reachable ∧ j'.queue = ⟨[], 5, 4⟩ ∧ j'.ran.length = 4 := by
  have hj : twoCountdowns.Reachable :=
    .tail (.single (.schedule 5 "first" 2)) (.schedule 5 "second" 0)
  obtain ⟨hsound, hadvance, hrun⟩ := history_sound countdown_onlySchedules hj
  obtain ⟨j₁, hreach₁, hqueue₁, -, hlength₁, -⟩ := hadvance 10 7 () 4 ⟨[], 7, 4⟩ () rfl
  obtain ⟨j₂, hreach₂, hqueue₂, -, hlength₂, -⟩ := hrun 10 () 4 ⟨[], 5, 4⟩ () rfl
  exact ⟨hsound, ⟨j₁, hreach₁, hqueue₁, hlength₁⟩, ⟨j₂, hreach₂, hqueue₂, hlength₂⟩⟩

end Journal

end WorldScript
