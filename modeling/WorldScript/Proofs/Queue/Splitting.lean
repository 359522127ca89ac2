import WorldScript.Proofs.Queue.Pending

/-! # Moving the clock in parts

If tasks leave the queue alone, then it does not matter in how many steps the clock is moved on. The
tasks that run are those of the order `Queue.FiresAs` up to the new time, and what is left is what
is due later, so the order is only cut at one more place. Draining the queue cuts it at the time of
every task.

A task may look at the queue, and then it can tell the one way from the other by the clock. One that
does not even look does the same in both.

* `Queue.Fire.Leaves`, `Queue.Fire.Blind`: tasks that leave the queue alone, and do not look at it.
* `Queue.after`: the queue when a time has passed.
* `Queue.FiresAs.advance_noted`: the tasks that run, and the queue that is left.
* `Queue.FiresAs.drain_noted`: the same for all tasks.
* `Journal.ticks_split`: the clock moved in two steps or one, or from task to task. -/

namespace WorldScript

variable {α σ : Type}

namespace Queue

/-! ### Tasks that leave the queue alone -/

namespace Fire

/-- The tasks of the queue come to an end and leave it as it is. They may look at it. -/
def Leaves (fire : Fire α σ) (q : Queue α) : Prop :=
  ∀ t ∈ q.tasks, ∀ seen s, ∃ s', fire t seen s = some (seen, s')

/-- What the tasks of the queue do to the state does not depend on the queue that they see. -/
def Blind (fire : Fire α σ) (q : Queue α) : Prop :=
  ∀ t ∈ q.tasks, ∀ seen seen' s, (fire t seen s).map Prod.snd = (fire t seen' s).map Prod.snd

/-- The same tasks, which are noted in the order in which they run. -/
def noted (fire : Fire α σ) : Fire α (σ × List (Task α)) := fun t q s =>
  (fire t q s.1).map fun r => (r.1, r.2, s.2 ++ [t])

/-- The tasks, one after the other, lead from the first state to the second, whatever each of them
sees of the queue. -/
inductive Plays (fire : Fire α σ) : List (Task α) → σ → σ → Prop
  | nil {s : σ} : Plays fire [] s s
  | cons {t : Task α} {rest : List (Task α)} {seen left : Queue α} {s s₁ s₂ : σ} :
    fire t seen s = some (left, s₁) → Plays fire rest s₁ s₂ → Plays fire (t :: rest) s s₂

variable {fire : Fire α σ} {q : Queue α}

theorem Plays.append {l₁ l₂ : List (Task α)} {s s₁ s₂ : σ} (h₁ : fire.Plays l₁ s s₁)
    (h₂ : fire.Plays l₂ s₁ s₂) : fire.Plays (l₁ ++ l₂) s s₂ := by
  induction h₁ with
  | nil => exact h₂
  | cons hfire _ ih => exact .cons hfire (ih h₂)

/-- Blind tasks lead to one state only. -/
theorem Plays.unique (hblind : fire.Blind q) {l : List (Task α)} (hl : ∀ t ∈ l, t ∈ q.tasks)
    {s s₁ s₂ : σ} (h₁ : fire.Plays l s s₁) (h₂ : fire.Plays l s s₂) : s₁ = s₂ := by
  induction h₁ with
  | nil =>
    cases h₂
    rfl
  | @cons t rest seen left s s' s₁ hfire _ ih =>
    cases h₂ with
    | @cons _ _ seen' left' _ s'' _ hfire' hrest' =>
      have hsame := hblind t (hl t List.mem_cons_self) seen seen' s
      rw [hfire, hfire'] at hsame
      have hstate : s' = s'' := Option.some.inj hsame
      exact ih (fun u hu => hl u (List.mem_cons_of_mem t hu)) (hstate ▸ hrest')

theorem Leaves.mono {q' : Queue α} (h : fire.Leaves q) (hq : ∀ t ∈ q'.tasks, t ∈ q.tasks) :
    fire.Leaves q' := fun t ht => h t (hq t ht)

end Fire

/-! ### The time that passes -/

/-- The queue when the time has passed and what was due by then has run. -/
def after (q : Queue α) (elapsed : Nat) : Queue α :=
  { q with
    tasks := q.tasks.filter (q.now + elapsed < ·.due)
    now := q.now + elapsed }

/-- The time until the last task is due. -/
def longestWait (q : Queue α) : Nat := (q.tasks.map q.remaining).foldr max 0

variable {q : Queue α} {t : Task α} {order rest : List (Task α)} {limit elapsed wait : Nat}

theorem mem_tasks_after : t ∈ (q.after elapsed).tasks ↔ t ∈ q.tasks ∧ q.now + elapsed < t.due := by
  simp [after]

theorem now_after (q : Queue α) (elapsed : Nat) : (q.after elapsed).now = q.now + elapsed := rfl

theorem after_after (q : Queue α) (a b : Nat) : (q.after a).after b = q.after (a + b) := by
  unfold after
  simp only [List.filter_filter, Nat.add_assoc, mk.injEq, and_true]
  refine List.filter_congr fun t _ => ?_
  rw [Bool.eq_iff_iff, Bool.and_eq_true]
  simp only [decide_eq_true_eq]
  omega

theorem after_zero (h : ∀ t ∈ q.tasks, q.now < t.due) : q.after 0 = q := by
  unfold after
  rw [Nat.add_zero, List.filter_eq_self.mpr (by simpa using h)]

theorem longestWait_le_iff : q.longestWait ≤ wait ↔ ∀ t ∈ q.tasks, t.due ≤ q.now + wait := by
  unfold longestWait
  induction q.tasks with
  | nil => simp
  | cons t l ih =>
    rw [List.map_cons, List.foldr_cons, Nat.max_le, ih, List.forall_mem_cons, remaining,
      Nat.sub_le_iff_le_add']

/-- What has passed is no longer to be waited for. -/
theorem longestWait_after (q : Queue α) (elapsed : Nat) :
    (q.after elapsed).longestWait = q.longestWait - elapsed := by
  have hiff : ∀ wait, (q.after elapsed).longestWait ≤ wait ↔ q.longestWait - elapsed ≤ wait := by
    intro wait
    rw [longestWait_le_iff, Nat.sub_le_iff_le_add', longestWait_le_iff]
    refine ⟨fun h t ht => ?_, fun h t ht => ?_⟩
    · by_cases hdue : q.now + elapsed < t.due
      · have hle := h t (mem_tasks_after.mpr ⟨ht, hdue⟩)
        simp only [after] at hle
        omega
      · omega
    · have hle := h t (mem_tasks_after.mp ht).1
      simp only [after]
      omega
  exact Nat.le_antisymm ((hiff _).mpr (Nat.le_refl _)) ((hiff _).mp (Nat.le_refl _))

/-- Tasks in order are those that are due by a time, and then the others. -/
theorem filter_due_append (h : order.Pairwise Task.Earlier) (now : Nat) :
    order.filter (·.due ≤ now) ++ order.filter (now < ·.due) = order := by
  induction order with
  | nil => rfl
  | cons t rest ih =>
    obtain ⟨hfirst, hrest⟩ := List.pairwise_cons.mp h
    by_cases hdue : t.due ≤ now
    · have hnot : ¬ now < t.due := Nat.not_lt.mpr hdue
      simp only [List.filter_cons, hdue, hnot, decide_true, decide_false, if_true,
        Bool.false_eq_true, if_false, List.cons_append, ih hrest]
    · -- nothing that comes after the task is due any earlier
      have hall : ∀ u ∈ t :: rest, now < u.due := by
        refine List.forall_mem_cons.mpr ⟨Nat.not_le.mp hdue, fun u hu => ?_⟩
        have hearlier := hfirst u hu
        unfold Task.Earlier at hearlier
        omega
      have hnone : (t :: rest).filter (·.due ≤ now) = [] := by
        refine List.filter_eq_nil_iff.mpr fun u hu => ?_
        have hu := hall u hu
        simpa using hu
      rw [hnone, List.filter_eq_self.mpr (by simpa using hall), List.nil_append]

/-- Those that are due by a time are those due by an earlier time, and then those due in between. -/
theorem filter_due_add (h : order.Pairwise Task.Earlier) {now later : Nat} (hle : now ≤ later) :
    order.filter (·.due ≤ now) ++ (order.filter (now < ·.due)).filter (·.due ≤ later) =
      order.filter (·.due ≤ later) := by
  have hearly : (order.filter (·.due ≤ now)).filter (·.due ≤ later) =
      order.filter (·.due ≤ now) := by
    refine List.filter_eq_self.mpr fun t ht => ?_
    have hdue := (List.mem_filter.mp ht).2
    simp only [decide_eq_true_eq] at hdue ⊢
    omega
  rw [← hearly, ← List.filter_append, filter_due_append h]

/-! ### What runs, and what is left -/

variable {fire : Fire α σ}

theorem runDue_noted (hdue : q.due? = some t) {s s' : σ}
    (hfire : fire t (q.remove t.id) s = some (q.remove t.id, s')) (ran : List (Task α)) :
    runDue fire.noted (limit + 1) q (s, ran) =
      (runDue fire.noted limit (q.remove t.id) (s', ran ++ [t])).map fun r => (r.1 + 1, r.2) := by
  conv => lhs; unfold runDue
  simp only [hdue, Fire.noted, hfire, Option.map_some, Option.bind_eq_bind, Option.bind_some]
  cases runDue _ limit (q.remove t.id) (s', ran ++ [t]) <;> rfl

namespace FiresAs

theorem after (h : q.FiresAs order) (elapsed : Nat) :
    (q.after elapsed).FiresAs (order.filter (q.now + elapsed < ·.due)) where
  numbers := h.numbers.sublist (List.filter_sublist.map Task.id)
  perm := h.perm.filter _
  ordered := h.ordered.filter _

/-- A task that is due is not among those that are left. -/
theorem after_remove (h : q.FiresAs (t :: rest)) (hdue : t.due ≤ q.now) :
    (q.remove t.id).after 0 = q.after 0 := by
  unfold Queue.after Queue.remove
  simp only [Nat.add_zero, List.filter_filter, mk.injEq, and_true]
  refine List.filter_congr fun u hu => ?_
  rw [Bool.eq_iff_iff, Bool.and_eq_true]
  simp only [decide_eq_true_eq]
  refine ⟨And.left, fun hlater => ⟨hlater, fun hid => ?_⟩⟩
  rw [eq_of_id h.numbers hu h.mem_of_cons hid] at hlater
  omega

/-- **The tasks that are due run in order, and the others are left.** -/
theorem runDue_noted (h : q.FiresAs order) (hfire : fire.Leaves q) (hlimit : order.length ≤ limit)
    (s : σ) (ran : List (Task α)) :
    ∃ s', Queue.runDue fire.noted limit q (s, ran) =
        some ((order.filter (·.due ≤ q.now)).length, q.after 0, s',
          ran ++ order.filter (·.due ≤ q.now)) ∧
      fire.Plays (order.filter (·.due ≤ q.now)) s s' := by
  induction order generalizing q limit s ran with
  | nil =>
    have hlater : ∀ t ∈ q.tasks, q.now < t.due := by
      rw [← h.perm.nil_eq]
      simp
    refine ⟨s, ?_, .nil⟩
    rw [runDue_of_none (due?_eq_none_iff.mpr hlater), after_zero hlater, List.filter_nil,
      List.append_nil]
    rfl
  | cons t order ih =>
    by_cases hdue : t.due ≤ q.now
    · obtain ⟨less, rfl⟩ : ∃ less, limit = less + 1 := ⟨limit - 1, by simp at hlimit; omega⟩
      obtain ⟨s₁, hs₁⟩ := hfire t h.mem_of_cons (q.remove t.id) s
      have hleaves := hfire.mono fun u (hu : u ∈ (q.remove t.id).tasks) =>
        (mem_tasks_remove.mp hu).1
      obtain ⟨s', hrun, hplays⟩ :=
        ih h.remove hleaves (Nat.le_of_succ_le_succ hlimit) s₁ (ran ++ [t])
      have hcons : (t :: order).filter (·.due ≤ q.now) = t :: order.filter (·.due ≤ q.now) :=
        List.filter_cons_of_pos (by simpa using hdue)
      refine ⟨s', ?_, hcons ▸ .cons hs₁ hplays⟩
      rw [Queue.runDue_noted (h.due?_of_le hdue) hs₁, hrun, h.after_remove hdue, hcons,
        List.append_assoc]
      rfl
    · have hlater : ∀ u ∈ q.tasks, q.now < u.due := fun u hu => by
        have hle := h.le_of_cons hu
        omega
      have hnone : (t :: order).filter (·.due ≤ q.now) = [] := by
        refine List.filter_eq_nil_iff.mpr fun u hu => ?_
        have hu := hlater u (h.perm.mem_iff.mp hu)
        simpa using hu
      rw [hnone, after_zero hlater]
      refine ⟨s, ?_, .nil⟩
      rw [runDue_of_none (due?_eq_none_iff.mpr hlater), List.append_nil]
      rfl

theorem advance_noted (h : q.FiresAs order) (hfire : fire.Leaves q) (hlimit : order.length ≤ limit)
    (elapsed : Nat) (s : σ) (ran : List (Task α)) :
    ∃ s', advance fire.noted limit elapsed q (s, ran) =
        some ((order.filter (·.due ≤ q.now + elapsed)).length, q.after elapsed, s',
          ran ++ order.filter (·.due ≤ q.now + elapsed)) ∧
      fire.Plays (order.filter (·.due ≤ q.now + elapsed)) s s' :=
  (h.tick elapsed).runDue_noted hfire hlimit s ran

theorem drain_noted_nil (h : q.FiresAs []) {rounds : Nat} (s : σ) (ran : List (Task α)) :
    Queue.drain fire.noted limit rounds q (s, ran) =
      some (0, q.after q.longestWait, s, ran ++ []) := by
  have htasks : q.tasks = [] := h.perm.nil_eq.symm
  have hwait : q.longestWait = 0 := by
    rw [longestWait, htasks]
    rfl
  rw [drain_of_empty htasks, hwait, after_zero (by simp [htasks]), List.append_nil]

/-- **All tasks run in order when the queue is drained**, and the clock is left at the time of the
last. By induction on the rounds, the first of which moves the clock on to the first task. -/
theorem drain_noted (h : q.FiresAs order) (hfire : fire.Leaves q) (hlimit : order.length ≤ limit)
    {rounds : Nat} (hrounds : order.length ≤ rounds) (s : σ) (ran : List (Task α)) :
    ∃ s', Queue.drain fire.noted limit rounds q (s, ran) =
        some (order.length, q.after q.longestWait, s', ran ++ order) ∧ fire.Plays order s s' := by
  induction rounds generalizing q order s ran with
  | zero =>
    have hnil : order = [] := List.eq_nil_of_length_eq_zero (Nat.le_zero.mp hrounds)
    subst hnil
    exact ⟨s, h.drain_noted_nil s ran, .nil⟩
  | succ rounds ih =>
    cases order with
    | nil => exact ⟨s, h.drain_noted_nil s ran, .nil⟩
    | cons t order =>
      obtain ⟨s₁, hround, hplays₁⟩ := h.advance_noted hfire hlimit (q.remaining t) s ran
      have hsplit := filter_due_append h.ordered (q.now + q.remaining t)
      have hfirst : t ∈ (t :: order).filter (·.due ≤ q.now + q.remaining t) := by
        refine List.mem_filter.mpr ⟨List.mem_cons_self, decide_eq_true ?_⟩
        unfold remaining
        omega
      have hrest := h.after (q.remaining t)
      generalize (t :: order).filter (·.due ≤ q.now + q.remaining t) = done at *
      generalize (t :: order).filter (q.now + q.remaining t < ·.due) = rest at *
      have hlength := congrArg List.length hsplit
      have hpositive := List.length_pos_of_mem hfirst
      rw [List.length_append] at hlength
      obtain ⟨s₂, hdrain, hplays₂⟩ := ih hrest
        (hfire.mono fun u hu => (mem_tasks_after.mp hu).1) (by omega) (by omega) s₁ (ran ++ done)
      have hwait : q.remaining t ≤ q.longestWait := by
        have hle := longestWait_le_iff.mp (Nat.le_refl q.longestWait) t h.mem_of_cons
        unfold remaining
        omega
      refine ⟨s₂, ?_, hsplit ▸ hplays₁.append hplays₂⟩
      rw [drain_of_wait h.nextWakeup? hround, hdrain, after_after, longestWait_after,
        Nat.add_sub_cancel' hwait, ← hsplit, List.append_assoc, List.length_append]
      rfl

end FiresAs

end Queue

/-- **Moving the clock in parts.** Let the tasks that wait leave the queue alone. To move the clock
by one time and then by another runs the same tasks in the same order as to move it by both at once:
the numbers of the tasks add up, and the queue that is left is the same, with its clock. To drain
the queue runs the same tasks in the same order as to move the clock by the time until the last task
is due. If the tasks do not even look at the queue, the state is the same, too. -/
theorem Journal.ticks_split {j : Journal α} (hj : j.Reachable) {fire : Queue.Fire α σ}
    (hfire : fire.Leaves j.queue) {limit : Nat} (hlimit : j.queue.tasks.length ≤ limit) (s : σ) :
    (∀ a b, ∃ n₁ n₂ q₁ q₂ s₁ s₂ s' ran₁ ran₂,
      Queue.advance fire.noted limit a j.queue (s, []) = some (n₁, q₁, s₁, ran₁) ∧
      Queue.advance fire.noted limit b q₁ (s₁, []) = some (n₂, q₂, s₂, ran₂) ∧
      Queue.advance fire.noted limit (a + b) j.queue (s, []) =
        some (n₁ + n₂, q₂, s', ran₁ ++ ran₂) ∧
      (fire.Blind j.queue → s' = s₂)) ∧
    ∃ n q' s₁ s' ran,
      Queue.runAll fire.noted limit j.queue (s, []) = some (n, q', s₁, ran) ∧
      Queue.advance fire.noted limit j.queue.longestWait j.queue (s, []) =
        some (n, q', s', ran) ∧
      (fire.Blind j.queue → s' = s₁) := by
  have h := Queue.firing_firesAs hj.orderly.nodup
  have hlength : j.queue.firing.length ≤ limit := by rwa [h.perm.length_eq]
  have hmem : ∀ t ∈ j.queue.firing, t ∈ j.queue.tasks := fun t => h.perm.mem_iff.mp
  constructor
  · intro a b
    obtain ⟨s₁, hfirst, hplays₁⟩ := h.advance_noted hfire hlength a s []
    obtain ⟨s₂, hsecond, hplays₂⟩ := (h.after a).advance_noted
      (hfire.mono fun t ht => (Queue.mem_tasks_after.mp ht).1)
      (Nat.le_trans (List.length_filter_le ..) hlength) b s₁ []
    obtain ⟨s', hboth, hplays⟩ := h.advance_noted hfire hlength (a + b) s []
    have hsplit := Queue.filter_due_add h.ordered (Nat.le_add_right (j.queue.now + a) b)
    rw [Nat.add_assoc] at hsplit
    rw [Queue.after_after, Queue.now_after, Nat.add_assoc] at hsecond
    rw [Queue.now_after, Nat.add_assoc] at hplays₂
    refine ⟨_, _, _, _, s₁, s₂, s', _, _, hfirst, hsecond, ?_, fun hblind => ?_⟩
    · rw [hboth, ← hsplit, List.length_append]
      rfl
    · refine hplays.unique hblind (fun t ht => hmem t (List.mem_of_mem_filter ht)) ?_
      rw [← hsplit]
      exact hplays₁.append hplays₂
  · obtain ⟨s₁, hdrain, hplays₁⟩ := h.drain_noted hfire hlength hlength s []
    obtain ⟨s', honce, hplays⟩ := h.advance_noted hfire hlength j.queue.longestWait s []
    have hall : j.queue.firing.filter (·.due ≤ j.queue.now + j.queue.longestWait) =
        j.queue.firing := by
      refine List.filter_eq_self.mpr fun t ht => decide_eq_true ?_
      exact Queue.longestWait_le_iff.mp (Nat.le_refl _) t (hmem t ht)
    rw [hall] at honce hplays
    exact ⟨_, _, s₁, s', _, hdrain, honce, fun hblind => hplays.unique hblind hmem hplays₁⟩

/-- Tasks that write down a digit each. -/
def Queue.digits : Queue.Fire Nat Nat := fun t q s => some (q, 10 * s + t.payload)

/-- The first task is the last to run, and the other two are due at one time. -/
def Journal.threeDigits : Journal Nat :=
  ((blank.schedule 300 "late" 1).schedule 100 "early" 2).schedule 100 "tie" 3

theorem Journal.ticks_split_threeDigits :
    Queue.digits.Leaves threeDigits.queue ∧ Queue.digits.Blind threeDigits.queue ∧
    (∃ q₁ q₂ ran,
      Queue.advance Queue.digits.noted 3 100 threeDigits.queue (0, []) =
        some (2, q₁, 23, [⟨2, "early", 100, 2⟩, ⟨3, "tie", 100, 3⟩]) ∧
      Queue.advance Queue.digits.noted 3 200 q₁ (23, []) =
        some (1, q₂, 231, [⟨1, "late", 300, 1⟩]) ∧
      Queue.advance Queue.digits.noted 3 300 threeDigits.queue (0, []) = some (3, q₂, 231, ran)) ∧
    ∃ q' ran,
      Queue.runAll Queue.digits.noted 3 threeDigits.queue (0, []) = some (3, q', 231, ran) ∧
      Queue.advance Queue.digits.noted 3 300 threeDigits.queue (0, []) =
        some (3, q', 231, ran) := by
  have hj : threeDigits.Reachable :=
    .tail (.tail (.single (.schedule 300 "late" 1)) (.schedule 100 "early" 2))
      (.schedule 100 "tie" 3)
  have hleaves : Queue.digits.Leaves threeDigits.queue := fun t _ _ s => ⟨10 * s + t.payload, rfl⟩
  have hblind : Queue.digits.Blind threeDigits.queue := fun _ _ _ _ _ => rfl
  obtain ⟨hticks, hall⟩ := ticks_split hj hleaves (Nat.le_refl 3) 0
  refine ⟨hleaves, hblind, ?_, ?_⟩
  · obtain ⟨n₁, n₂, q₁, q₂, s₁, s₂, s', ran₁, ran₂, hfirst, hsecond, hboth, hstate⟩ :=
      hticks 100 200
    cases hfirst
    cases hsecond
    exact ⟨_, _, _, rfl, rfl, hstate hblind ▸ hboth⟩
  · obtain ⟨n, q', s₁, s', ran, hdrain, honce, hstate⟩ := hall
    have hrun : Queue.runAll Queue.digits.noted 3 threeDigits.queue (0, []) = some (3, ⟨[], 300, 3⟩,
        231, [⟨2, "early", 100, 2⟩, ⟨3, "tie", 100, 3⟩, ⟨1, "late", 300, 1⟩]) := rfl
    have hlast : threeDigits.queue.longestWait = 300 := by decide
    rw [hrun] at hdrain
    rw [hlast] at honce
    cases hdrain
    obtain rfl := hstate hblind
    exact ⟨_, _, hrun, honce⟩

end WorldScript
