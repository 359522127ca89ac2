import Mathlib.Data.List.Nodup
import WorldScript.Proofs.Queue.History

/-! # The order of the tasks that wait

`Queue.pending` lists the tasks by the time that is left, and those with the same time left by
their numbers. Tasks run by the time at which they are due. The two orders are the same as long as
no task is overdue, that is between two calls. A task that looks at the queue while it runs may see
others that are overdue. For all of these no time is left, so they are listed by their numbers,
whatever the times at which they were due.

* `Queue.FiresAs`: the order in which tasks run, if nothing more is scheduled.
* `Queue.fireOut_eq`: that they do, however the clock is moved on.
* `Queue.pending_eq_iff`: when the list is in this order.
* `Journal.Resting`: what can be seen between two calls.
* `Journal.pending_firing_order`: all of it for every queue that can be seen. -/

namespace WorldScript

open Relation (ReflTransGen)

variable {α σ : Type}

namespace Queue

variable {q : Queue α} {t : Task α} {order rest : List (Task α)} {limit : Nat}

/-! ### Firing until nothing is left -/

/-- All tasks, the earliest first. -/
def firing (q : Queue α) : List (Task α) :=
  q.tasks.mergeSort fun a b => a.due < b.due || (a.due == b.due && a.id ≤ b.id)

/-- A task that does nothing, and is noted. -/
def noting : Fire α (List (Task α)) := fun t q ran => some (q, ran ++ [t])

/-- Moves the clock on by one time after the other and then runs what is left. Tasks are noted in
the order in which they run. -/
def fireOut (limit : Nat) : List Nat → Queue α → List (Task α) → Option (Queue α × List (Task α))
  | [], q, ran => do
    let (_, q, ran) ← runAll noting limit q ran
    return (q, ran)
  | elapsed :: more, q, ran => do
    let (_, q, ran) ← advance noting limit elapsed q ran
    fireOut limit more q ran

/-- The tasks of the queue, which have different numbers, from the earliest to the latest. -/
structure FiresAs (q : Queue α) (order : List (Task α)) : Prop where
  numbers : (q.tasks.map Task.id).Nodup
  perm : order.Perm q.tasks
  ordered : order.Pairwise Task.Earlier

theorem firing_firesAs (hids : (q.tasks.map Task.id).Nodup) : q.FiresAs q.firing := by
  have hperm : q.firing.Perm q.tasks := List.mergeSort_perm _ _
  have hsorted : q.firing.Pairwise fun a b =>
      (a.due < b.due || (a.due == b.due && a.id ≤ b.id)) = true := by
    refine List.pairwise_mergeSort ?_ ?_ q.tasks
    · intro a b c hab hbc
      simp only [Bool.or_eq_true, Bool.and_eq_true, decide_eq_true_eq, beq_iff_eq] at hab hbc ⊢
      omega
    · intro a b
      simp only [Bool.or_eq_true, Bool.and_eq_true, decide_eq_true_eq, beq_iff_eq]
      omega
  have hdistinct : q.firing.Pairwise fun a b => a.id ≠ b.id :=
    List.pairwise_map.mp ((hperm.map Task.id).nodup_iff.mpr hids)
  refine ⟨hids, hperm, (hsorted.and hdistinct).imp ?_⟩
  rintro a b ⟨hle, hne⟩
  simp only [Bool.or_eq_true, Bool.and_eq_true, decide_eq_true_eq, beq_iff_eq] at hle
  unfold Task.Earlier
  omega

theorem runDue_of_none {fire : Fire α σ} (h : q.due? = none) (s : σ) :
    runDue fire limit q s = some (0, q, s) := by
  cases limit <;> simp only [runDue, h]

theorem runDue_noting (h : q.due? = some t) (ran : List (Task α)) :
    runDue noting (limit + 1) q ran =
      (runDue noting limit (q.remove t.id) (ran ++ [t])).map fun r => (r.1 + 1, r.2) := by
  conv => lhs; unfold runDue
  simp only [h, noting, Option.bind_eq_bind, Option.bind_some]
  cases runDue noting limit (q.remove t.id) (ran ++ [t]) <;> rfl

theorem drain_of_empty {fire : Fire α σ} {rounds : Nat} (h : q.tasks = []) (s : σ) :
    drain fire limit rounds q s = some (0, q, s) := by
  cases rounds <;> simp only [drain, nextWakeup?_eq_none_iff.mpr h]

theorem drain_of_wait {fire : Fire α σ} {wait rounds n : Nat} {q₁ : Queue α} {s s₁ : σ}
    (hwait : q.nextWakeup? = some wait) (hrun : advance fire limit wait q s = some (n, q₁, s₁)) :
    drain fire limit (rounds + 1) q s =
      (drain fire limit rounds q₁ s₁).map fun r => (n + r.1, r.2) := by
  conv => lhs; unfold drain
  simp only [hwait, hrun, Option.bind_eq_bind, Option.bind_some]
  cases drain fire limit rounds q₁ s₁ <;> rfl

namespace FiresAs

theorem le_of_cons (h : q.FiresAs (t :: rest)) {u : Task α} (hu : u ∈ q.tasks) : t.due ≤ u.due := by
  have hmem := h.perm.mem_iff.mpr hu
  rcases List.mem_cons.mp hmem with rfl | hrest
  · exact Nat.le_refl _
  · have hearlier := (List.pairwise_cons.mp h.ordered).1 u hrest
    unfold Task.Earlier at hearlier
    omega

theorem mem_of_cons (h : q.FiresAs (t :: rest)) : t ∈ q.tasks :=
  h.perm.mem_iff.mp List.mem_cons_self

/-- The first task is the one to run, if it is due. -/
theorem due?_of_le (h : q.FiresAs (t :: rest)) (hdue : t.due ≤ q.now) : q.due? = some t := by
  cases hnext : q.due? with
  | none =>
    have hlater := due?_eq_none_iff.mp hnext t h.mem_of_cons
    omega
  | some u =>
    obtain ⟨hu, -, hfirst⟩ := due?_eq_some hnext
    have hnot := hfirst t h.mem_of_cons hdue
    rcases List.mem_cons.mp (h.perm.mem_iff.mpr hu) with rfl | hrest
    · rfl
    · exact absurd ((List.pairwise_cons.mp h.ordered).1 u hrest) hnot

theorem remove (h : q.FiresAs (t :: rest)) : (q.remove t.id).FiresAs rest where
  numbers := h.numbers.sublist (List.filter_sublist.map Task.id)
  perm := (h.perm.trans (perm_cons_remove h.numbers h.mem_of_cons)).cons_inv
  ordered := (List.pairwise_cons.mp h.ordered).2

theorem tick (h : q.FiresAs order) (elapsed : Nat) :
    FiresAs { q with now := q.now + elapsed } order := ⟨h.numbers, h.perm, h.ordered⟩

/-- What is due runs, and the rest waits in the same order as before. -/
theorem runDue (h : q.FiresAs order) (hlimit : order.length ≤ limit) (ran : List (Task α)) :
    ∃ done rest q', order = done ++ rest ∧
      Queue.runDue noting limit q ran = some (done.length, q', ran ++ done) ∧
      q'.FiresAs rest ∧ ∀ t ∈ rest, q.now < t.due := by
  induction order generalizing q limit ran with
  | nil =>
    have hnone : q.due? = none := by
      rw [due?_eq_none_iff, h.perm.nil_eq.symm]
      simp
    refine ⟨[], [], q, rfl, ?_, h, by simp⟩
    rw [runDue_of_none hnone, List.append_nil]
    rfl
  | cons t order ih =>
    by_cases hdue : t.due ≤ q.now
    · obtain ⟨less, rfl⟩ : ∃ less, limit = less + 1 := by
        cases limit with
        | zero => simp at hlimit
        | succ less => exact ⟨less, rfl⟩
      obtain ⟨done, rest, q', horder, hrun, hrest, hlater⟩ :=
        ih h.remove (Nat.le_of_succ_le_succ hlimit) (ran ++ [t])
      refine ⟨t :: done, rest, q', by rw [horder]; rfl, ?_, hrest, hlater⟩
      rw [runDue_noting (h.due?_of_le hdue), hrun, List.append_assoc]
      rfl
    · have hlater : ∀ u ∈ q.tasks, q.now < u.due := fun u hu => by
        have hle := h.le_of_cons hu
        omega
      refine ⟨[], t :: order, q, rfl, ?_, h, fun u hu => hlater u (h.perm.mem_iff.mp hu)⟩
      rw [runDue_of_none (due?_eq_none_iff.mpr hlater), List.append_nil]
      rfl

/-- The time until the first task is due is the time that is left for it. -/
theorem nextWakeup? (h : q.FiresAs (t :: rest)) : q.nextWakeup? = some (q.remaining t) := by
  refine List.min?_eq_some_iff.mpr ⟨List.mem_map_of_mem h.mem_of_cons, ?_⟩
  intro wait hwait
  obtain ⟨u, hu, rfl⟩ := List.mem_map.mp hwait
  have hle := h.le_of_cons hu
  unfold remaining
  omega

/-- Each round runs at least the first task, so there are no more rounds than tasks. -/
theorem drain (h : q.FiresAs order) (hlimit : order.length ≤ limit) {rounds : Nat}
    (hrounds : order.length ≤ rounds) (ran : List (Task α)) :
    ∃ q', Queue.drain noting limit rounds q ran = some (order.length, q', ran ++ order) ∧
      q'.tasks = [] := by
  induction rounds generalizing q order ran with
  | zero =>
    have hnil : order = [] := List.eq_nil_of_length_eq_zero (Nat.le_zero.mp hrounds)
    subst hnil
    have htasks : q.tasks = [] := h.perm.nil_eq.symm
    exact ⟨q, by rw [drain_of_empty htasks, List.append_nil]; rfl, htasks⟩
  | succ rounds ih =>
    cases order with
    | nil =>
      have htasks : q.tasks = [] := h.perm.nil_eq.symm
      exact ⟨q, by rw [drain_of_empty htasks, List.append_nil]; rfl, htasks⟩
    | cons t order =>
      obtain ⟨done, rest, q₁, horder, hrun, hrest, hlater⟩ :=
        (h.tick (q.remaining t)).runDue hlimit ran
      have hsplit := congrArg List.length horder
      simp only [List.length_append] at hsplit
      have hdone : done ≠ [] := by
        rintro rfl
        -- the clock was moved to the time of the first task
        have hfirst := hlater t (by rw [← List.nil_append rest, ← horder]; exact List.mem_cons_self)
        simp only [remaining] at hfirst
        omega
      have hpositive := List.length_pos_iff.mpr hdone
      obtain ⟨q', hdrain, hempty⟩ := ih hrest (by omega) (by omega) (ran ++ done)
      refine ⟨q', ?_, hempty⟩
      rw [drain_of_wait h.nextWakeup? hrun, hdrain, horder, List.append_assoc, List.length_append]
      rfl

end FiresAs

/-- However the clock is moved on, tasks run in the order of `FiresAs`. -/
theorem fireOut_eq (h : q.FiresAs order) (hlimit : order.length ≤ limit) (times : List Nat)
    (ran : List (Task α)) :
    ∃ q', q.fireOut limit times ran = some (q', ran ++ order) ∧ q'.tasks = [] := by
  induction times generalizing q order ran with
  | nil =>
    obtain ⟨q', hdrain, hempty⟩ := h.drain hlimit hlimit ran
    refine ⟨q', ?_, hempty⟩
    rw [fireOut, runAll, hdrain]
    rfl
  | cons elapsed times ih =>
    obtain ⟨done, rest, q₁, rfl, hrun, hrest, -⟩ := (h.tick elapsed).runDue hlimit ran
    rw [List.length_append] at hlimit
    obtain ⟨q', hout, hempty⟩ := ih hrest (by omega) (ran ++ done)
    refine ⟨q', ?_, hempty⟩
    rw [fireOut, advance, hrun, ← List.append_assoc]
    exact hout

/-! ### The list of waiting tasks -/

/-- The list is ordered by the time that is left, and then by numbers. -/
theorem pending_pairwise (q : Queue α) : q.pending.Pairwise fun a b =>
    q.remaining a < q.remaining b ∨ q.remaining a = q.remaining b ∧ a.id ≤ b.id := by
  have hsorted : q.pending.Pairwise fun a b =>
      (q.remaining a < q.remaining b ||
        (q.remaining a == q.remaining b && a.id ≤ b.id)) = true := by
    refine List.pairwise_mergeSort ?_ ?_ q.tasks
    · intro a b c hab hbc
      simp only [Bool.or_eq_true, Bool.and_eq_true, decide_eq_true_eq, beq_iff_eq] at hab hbc ⊢
      omega
    · intro a b
      simp only [Bool.or_eq_true, Bool.and_eq_true, decide_eq_true_eq, beq_iff_eq]
      omega
  refine hsorted.imp fun hle => ?_
  simpa only [Bool.or_eq_true, Bool.and_eq_true, decide_eq_true_eq, beq_iff_eq] using hle

theorem nextWakeup?_eq_head (q : Queue α) :
    q.nextWakeup? = q.pending.head?.map q.remaining := by
  have hsorted := q.pending_pairwise
  have hperm := q.pending_perm
  cases hpending : q.pending with
  | nil =>
    rw [hpending] at hperm
    exact nextWakeup?_eq_none_iff.mpr hperm.nil_eq.symm
  | cons t rest =>
    rw [hpending] at hsorted hperm
    refine List.min?_eq_some_iff.mpr ⟨List.mem_map_of_mem (hperm.mem_iff.mp List.mem_cons_self), ?_⟩
    intro wait hwait
    obtain ⟨u, hu, rfl⟩ := List.mem_map.mp hwait
    rcases List.mem_cons.mp (hperm.mem_iff.mpr hu) with rfl | hrest
    · exact Nat.le_refl _
    · have hle := (List.pairwise_cons.mp hsorted).1 u hrest
      omega

/-- Tasks that are due, or overdue, have numbers in the order of the times at which they are due. -/
def DueByNumber (q : Queue α) : Prop :=
  ∀ a ∈ q.tasks, ∀ b ∈ q.tasks, a.due < b.due → b.due ≤ q.now → a.id < b.id

theorem dueByNumber_of_le (h : ∀ t ∈ q.tasks, q.now ≤ t.due) : q.DueByNumber := by
  intro a ha b _ hlt hdue
  have hle := h a ha
  omega

/-- Of two tasks of a list in order one comes first. -/
theorem rel_of_due_lt {R : Task α → Task α → Prop} (hordered : order.Pairwise Task.Earlier)
    (hR : order.Pairwise R) {a b : Task α} (ha : a ∈ order) (hb : b ∈ order)
    (hlt : a.due < b.due) : R a b := by
  induction order with
  | nil => cases ha
  | cons t rest ih =>
    rw [List.pairwise_cons] at hordered hR
    rcases List.mem_cons.mp ha with hat | harest
    · rcases List.mem_cons.mp hb with hbt | hbrest
      · rw [hat, hbt] at hlt
        omega
      · rw [hat]
        exact hR.1 b hbrest
    · rcases List.mem_cons.mp hb with hbt | hbrest
      · have hearlier := hordered.1 a harest
        rw [← hbt] at hearlier
        unfold Task.Earlier at hearlier
        omega
      · exact ih hordered.2 hR.2 harest hbrest

theorem eq_of_id (hids : (q.tasks.map Task.id).Nodup) {a b : Task α} (ha : a ∈ q.tasks)
    (hb : b ∈ q.tasks) (h : a.id = b.id) : a = b := List.inj_on_of_nodup_map hids ha hb h

/-- **When waiting tasks are listed in the order in which they run.** -/
theorem pending_eq_iff (h : q.FiresAs order) : q.pending = order ↔ q.DueByNumber := by
  constructor
  · intro heq a ha b hb hlt hdue
    have hlisted := rel_of_due_lt h.ordered (heq ▸ q.pending_pairwise)
      (h.perm.mem_iff.mpr ha) (h.perm.mem_iff.mpr hb) hlt
    have hne : a.id ≠ b.id := by
      intro hid
      rw [eq_of_id h.numbers ha hb hid] at hlt
      omega
    unfold remaining at hlisted
    omega
  · intro hnumbers
    refine List.Perm.eq_of_pairwise ?_ q.pending_pairwise ?_ (q.pending_perm.trans h.perm.symm)
    · intro a b ha hb hab hba
      refine eq_of_id h.numbers (q.pending_perm.mem_iff.mp ha) (h.perm.mem_iff.mp hb) ?_
      omega
    · refine List.Pairwise.imp_of_mem ?_ h.ordered
      intro a b ha hb hearlier
      have hsame := hnumbers a (h.perm.mem_iff.mp ha) b (h.perm.mem_iff.mp hb)
      unfold Task.Earlier at hearlier
      unfold remaining
      omega

/-! ### The end of a call -/

variable {fire : Fire α σ} {n : Nat} {q' : Queue α} {s s' : σ}

theorem runDue_leaves (h : runDue fire limit q s = some (n, q', s')) :
    ∀ t ∈ q'.tasks, q'.now < t.due := by
  induction limit generalizing q s n with
  | zero =>
    rcases runDue_cases h with ⟨hnone, -, rfl, -⟩ | ⟨t, less, m, q₁, s₁, -, hless, -⟩
    · exact due?_eq_none_iff.mp hnone
    · cases hless
  | succ limit ih =>
    rcases runDue_cases h with ⟨hnone, -, rfl, -⟩ | ⟨t, less, m, q₁, s₁, -, hless, -, -, hrest⟩
    · exact due?_eq_none_iff.mp hnone
    · cases hless
      exact ih hrest

theorem drain_leaves {rounds : Nat} (h : drain fire limit rounds q s = some (n, q', s')) :
    q'.tasks = [] := by
  induction rounds generalizing q s n with
  | zero =>
    rcases drain_cases h with ⟨hnone, -, rfl, -⟩ | ⟨wait, less, m₁, m₂, q₁, s₁, -, hless, -⟩
    · exact nextWakeup?_eq_none_iff.mp hnone
    · cases hless
  | succ rounds ih =>
    rcases drain_cases h with
      ⟨hnone, -, rfl, -⟩ | ⟨wait, less, m₁, m₂, q₁, s₁, -, hless, -, -, hrest⟩
    · exact nextWakeup?_eq_none_iff.mp hnone
    · cases hless
      exact ih hrest

end Queue

namespace Journal

/-! ### What can be seen -/

/-- A journal between two calls: what `advance` or `runAll` set going has come to an end. While
tasks run they make moves, of whatever sort. -/
inductive Resting : Journal α → Prop
  | blank : Resting blank
  | schedule {j : Journal α} (delay : Nat) (description : String) (payload : α) :
    Resting j → Resting (j.schedule delay description payload)
  | remove {j : Journal α} (id : Nat) : Resting j → Resting (j.remove id)
  | clear {j : Journal α} : Resting j → Resting j.clear
  | advance {σ : Type} {fire : Queue.Fire α σ} {limit elapsed n : Nat} {j j' : Journal α}
    {s s' : σ} : Resting j → ReflTransGen Move (j.tick elapsed) j' →
    Queue.advance fire limit elapsed j.queue s = some (n, j'.queue, s') → Resting j'
  | runAll {σ : Type} {fire : Queue.Fire α σ} {limit n : Nat} {j j' : Journal α} {s s' : σ} :
    Resting j → ReflTransGen Move j j' →
    Queue.runAll fire limit j.queue s = some (n, j'.queue, s') → Resting j'

/-- Between two calls no task is overdue. -/
theorem Resting.le_due {j : Journal α} (h : j.Resting) :
    ∀ t ∈ j.queue.tasks, j.queue.now ≤ t.due := by
  induction h with
  | blank => exact fun t ht => absurd ht List.not_mem_nil
  | schedule delay description payload _ ih =>
    intro t ht
    rcases List.mem_append.mp ht with ht | ht
    · exact ih t ht
    · rw [List.mem_singleton.mp ht]
      exact Nat.le_add_right ..
  | remove id _ ih => exact fun t ht => ih t (Queue.mem_tasks_remove.mp ht).1
  | clear _ _ => exact fun t ht => absurd ht List.not_mem_nil
  | advance _ _ hcall _ => exact fun t ht => Nat.le_of_lt (Queue.runDue_leaves hcall t ht)
  | runAll _ _ hcall _ =>
    intro t ht
    rw [Queue.drain_leaves hcall] at ht
    cases ht

/-- **The list of waiting tasks and the order in which they run.** At every moment, also while tasks
run, the list has each waiting task once, and the time until the next task is due is what is left
for the first of the list. If nothing more is scheduled, tasks run as `Queue.firing` says, however
the clock is moved on. The list is in this order if and only if the tasks that are due have numbers
in the order of their times. So it is between any two calls, but a task that runs may see others
that are overdue and listed in another order. -/
theorem pending_firing_order {j : Journal α} (hj : j.Reachable) :
    j.queue.pending.Perm j.queue.tasks ∧ (j.queue.pending.map Task.id).Nodup ∧
    j.queue.nextWakeup? = j.queue.pending.head?.map j.queue.remaining ∧
    (∀ limit times, j.queue.tasks.length ≤ limit →
      ∃ q, j.queue.fireOut limit times [] = some (q, j.queue.firing) ∧ q.tasks = []) ∧
    (j.queue.pending = j.queue.firing ↔ j.queue.DueByNumber) ∧
    (j.Resting → j.queue.pending = j.queue.firing) := by
  have hids := hj.orderly.nodup
  have hfires := Queue.firing_firesAs hids
  have hperm := j.queue.pending_perm
  refine ⟨hperm, (hperm.map Task.id).nodup_iff.mpr hids, j.queue.nextWakeup?_eq_head, ?_,
    Queue.pending_eq_iff hfires, ?_⟩
  · intro limit times hlimit
    exact Queue.fireOut_eq hfires (by rwa [hfires.perm.length_eq]) times []
  · intro hresting
    exact (Queue.pending_eq_iff hfires).mpr (Queue.dueByNumber_of_le hresting.le_due)

/-- The clock has moved past two tasks, the later of which was scheduled first, and a third one
runs. -/
def lookingBack : Journal Unit :=
  ((((blank.schedule 2 "late" ()).schedule 1 "early" ()).schedule 0 "look" ()).tick 2).take
    ⟨3, "look", 0, ()⟩

/-- The third task sees the other two in the order in which they were scheduled. They run the other
way round. -/
theorem pending_firing_order_lookingBack :
    lookingBack.queue.pending.map Task.description = ["late", "early"] ∧
    lookingBack.queue.firing.map Task.description = ["early", "late"] ∧
    (∃ q, lookingBack.queue.fireOut 2 [] [] = some (q, lookingBack.queue.firing)) ∧
    ¬ lookingBack.queue.DueByNumber ∧ lookingBack.queue.nextWakeup? = some 0 := by
  have hj : lookingBack.Reachable :=
    .tail (.tail (.tail (.tail (.single (.schedule 2 "late" ())) (.schedule 1 "early" ()))
      (.schedule 0 "look" ())) (.tick 2)) (.take rfl)
  obtain ⟨-, -, hwakeup, hfire, hiff, -⟩ := pending_firing_order hj
  have hpending : lookingBack.queue.pending = [⟨1, "late", 2, ()⟩, ⟨2, "early", 1, ()⟩] :=
    List.mergeSort_of_pairwise (by decide)
  have hfiring : lookingBack.queue.firing = [⟨2, "early", 1, ()⟩, ⟨1, "late", 2, ()⟩] := by
    obtain ⟨q, hq, -⟩ := hfire 2 [] (Nat.le_refl 2)
    exact (Prod.mk.inj (Option.some.inj hq)).2.symm
  obtain ⟨q, hq, -⟩ := hfire 2 [] (Nat.le_refl 2)
  refine ⟨by rw [hpending]; rfl, by rw [hfiring]; rfl, ⟨q, hq⟩, ?_, by rw [hwakeup, hpending]; rfl⟩
  rw [← hiff, hpending, hfiring]
  intro heq
  cases congrArg (List.map Task.id) heq

end Journal

end WorldScript
