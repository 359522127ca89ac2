import WorldScript.Queue.Basic

/-! # The order in which tasks run

Tasks run in the order of the times at which they are due, and of those due at one time in the order
of their numbers. The task that a queue would run now is the first in this order of those that are
due, and nothing else is taken out of the queue with it.

* `Task.Earlier`: the order.
* `Queue.due?_eq_some`, `Queue.due?_eq_none_iff`: the task that is to run now.
* `Queue.perm_cons_remove`: taking a task takes no other.
* `Queue.runDue_cases`, `Queue.drain_cases`: one turn of the loops. -/

namespace WorldScript

variable {α σ : Type}

/-- The first task is due before the second, or at the same time and has the smaller number. -/
def Task.Earlier (a b : Task α) : Prop := a.due < b.due ∨ a.due = b.due ∧ a.id < b.id

theorem Task.earlier_of_due_lt {a b : Task α} (h : a.due < b.due) : a.Earlier b := Or.inl h

/-- Of two tasks with different numbers one is the earlier. -/
theorem Task.earlier_of_not {a b : Task α} (hid : a.id ≠ b.id) (h : ¬ b.Earlier a) :
    a.Earlier b := by
  unfold Earlier at h ⊢
  omega

namespace Queue

theorem before_iff {a b : Task α} : before a b = true ↔ a.Earlier b := by
  simp [before, Task.Earlier]

/-- A fold by `earlier` gives the earliest of the tasks and of the one that it began with. -/
theorem foldl_earlier (l : List (Task α)) (b : Task α) :
    ∃ t, l.foldl earlier (some b) = some t ∧ (t = b ∨ t ∈ l) ∧ ¬ b.Earlier t ∧
      ∀ u ∈ l, ¬ u.Earlier t := by
  induction l generalizing b with
  | nil =>
    refine ⟨b, rfl, Or.inl rfl, ?_, by simp⟩
    unfold Task.Earlier
    omega
  | cons u l ih =>
    by_cases hu : u.Earlier b
    · obtain ⟨t, ht, hmem, hfirst, hall⟩ := ih u
      refine ⟨t, ?_, ?_, ?_, ?_⟩
      · rw [List.foldl_cons, earlier, if_pos (before_iff.mpr hu)]
        exact ht
      · rcases hmem with rfl | hmem
        · exact Or.inr List.mem_cons_self
        · exact Or.inr (List.mem_cons_of_mem u hmem)
      · unfold Task.Earlier at hu hfirst ⊢
        omega
      · intro v hv
        rcases List.mem_cons.mp hv with rfl | hv
        · exact hfirst
        · exact hall v hv
    · obtain ⟨t, ht, hmem, hfirst, hall⟩ := ih b
      refine ⟨t, ?_, ?_, hfirst, ?_⟩
      · rw [List.foldl_cons, earlier, if_neg (by rwa [before_iff])]
        exact ht
      · rcases hmem with rfl | hmem
        · exact Or.inl rfl
        · exact Or.inr (List.mem_cons_of_mem u hmem)
      · intro v hv
        rcases List.mem_cons.mp hv with rfl | hv
        · unfold Task.Earlier at hu hfirst ⊢
          omega
        · exact hall v hv

/-- The task that is to run now waits in the queue and is due, and none of those that are due is
earlier. -/
theorem due?_eq_some {q : Queue α} {t : Task α} (h : q.due? = some t) :
    t ∈ q.tasks ∧ t.due ≤ q.now ∧ ∀ u ∈ q.tasks, u.due ≤ q.now → ¬ u.Earlier t := by
  unfold due? at h
  cases hdue : q.tasks.filter (·.due ≤ q.now) with
  | nil =>
    rw [hdue] at h
    cases h
  | cons b l =>
    obtain ⟨t', ht', hmem, hfirst, hall⟩ := foldl_earlier l b
    rw [hdue, List.foldl_cons, earlier, ht', Option.some.injEq] at h
    subst h
    have hin : t' ∈ q.tasks.filter (·.due ≤ q.now) := by
      rw [hdue]
      exact List.mem_cons.mpr hmem
    rw [List.mem_filter, decide_eq_true_eq] at hin
    refine ⟨hin.1, hin.2, ?_⟩
    intro u hu hnow
    have hudue : u ∈ b :: l := by
      rw [← hdue, List.mem_filter, decide_eq_true_eq]
      exact ⟨hu, hnow⟩
    rcases List.mem_cons.mp hudue with rfl | hul
    · exact hfirst
    · exact hall u hul

theorem due?_eq_none_iff {q : Queue α} : q.due? = none ↔ ∀ t ∈ q.tasks, q.now < t.due := by
  unfold due?
  cases hdue : q.tasks.filter (·.due ≤ q.now) with
  | nil =>
    refine iff_of_true rfl fun t ht => ?_
    have hnot := List.filter_eq_nil_iff.mp hdue t ht
    rw [decide_eq_true_eq] at hnot
    omega
  | cons b l =>
    obtain ⟨t, ht, -, -, -⟩ := foldl_earlier l b
    rw [List.foldl_cons, earlier, ht]
    have hb : b ∈ q.tasks.filter (·.due ≤ q.now) := by
      rw [hdue]
      exact List.mem_cons_self
    rw [List.mem_filter, decide_eq_true_eq] at hb
    refine iff_of_false (by simp) fun hall => ?_
    have hlater := hall b hb.1
    omega

/-- Where numbers are not used twice, the queue without a task has all the others. -/
theorem perm_cons_remove {q : Queue α} (hids : (q.tasks.map Task.id).Nodup) {t : Task α}
    (ht : t ∈ q.tasks) : q.tasks.Perm (t :: (q.remove t.id).tasks) := by
  obtain ⟨l₁, l₂, htasks⟩ := List.append_of_mem ht
  rw [htasks, List.map_append, List.map_cons, List.nodup_append] at hids
  obtain ⟨-, hnodup, hdisjoint⟩ := hids
  rw [List.nodup_cons] at hnodup
  have h₁ : ∀ u ∈ l₁, u.id ≠ t.id := fun u hu =>
    hdisjoint u.id (List.mem_map_of_mem hu) t.id List.mem_cons_self
  have h₂ : ∀ u ∈ l₂, u.id ≠ t.id := fun u hu heq =>
    hnodup.1 (heq ▸ List.mem_map_of_mem hu)
  have hremove : (q.remove t.id).tasks = l₁ ++ l₂ := by
    rw [remove, htasks, List.filter_append, List.filter_cons_of_neg (by simp),
      List.filter_eq_self.mpr (by simpa using h₁), List.filter_eq_self.mpr (by simpa using h₂)]
  rw [hremove, htasks]
  exact List.perm_middle

/-! ### The loops, turn by turn -/

variable {fire : Fire α σ} {limit n : Nat} {q q' : Queue α} {s s' : σ}

theorem runDue_cases (h : runDue fire limit q s = some (n, q', s')) :
    (q.due? = none ∧ n = 0 ∧ q' = q ∧ s' = s) ∨
    ∃ t less m q₁ s₁, q.due? = some t ∧ limit = less + 1 ∧ n = m + 1 ∧
      fire t (q.remove t.id) s = some (q₁, s₁) ∧ runDue fire less q₁ s₁ = some (m, q', s') := by
  cases hdue : q.due? with
  | none =>
    left
    cases limit <;> simp only [runDue, hdue, Option.some.injEq, Prod.mk.injEq] at h <;>
      exact ⟨rfl, h.1.symm, h.2.1.symm, h.2.2.symm⟩
  | some t =>
    right
    cases limit with
    | zero => simp [runDue, hdue] at h
    | succ less =>
      simp only [runDue, hdue, Option.bind_eq_bind, Option.bind_eq_some_iff, Prod.exists,
        Option.pure_def, Option.some.injEq, Prod.mk.injEq] at h
      obtain ⟨q₁, s₁, hfire, m, q₂, s₂, hrest, rfl, rfl, rfl⟩ := h
      exact ⟨t, less, m, q₁, s₁, rfl, rfl, rfl, hfire, hrest⟩

theorem drain_cases {rounds : Nat} (h : drain fire limit rounds q s = some (n, q', s')) :
    (q.nextWakeup? = none ∧ n = 0 ∧ q' = q ∧ s' = s) ∨
    ∃ wait less m₁ m₂ q₁ s₁, q.nextWakeup? = some wait ∧ rounds = less + 1 ∧ n = m₁ + m₂ ∧
      advance fire limit wait q s = some (m₁, q₁, s₁) ∧
      drain fire limit less q₁ s₁ = some (m₂, q', s') := by
  cases hwait : q.nextWakeup? with
  | none =>
    left
    cases rounds <;> simp only [drain, hwait, Option.some.injEq, Prod.mk.injEq] at h <;>
      exact ⟨rfl, h.1.symm, h.2.1.symm, h.2.2.symm⟩
  | some wait =>
    right
    cases rounds with
    | zero => simp [drain, hwait] at h
    | succ less =>
      simp only [drain, hwait, Option.bind_eq_bind, Option.bind_eq_some_iff, Prod.exists,
        Option.pure_def, Option.some.injEq, Prod.mk.injEq] at h
      obtain ⟨m₁, q₁, s₁, hadvance, m₂, q₂, s₂, hrest, rfl, rfl, rfl⟩ := h
      exact ⟨wait, less, m₁, m₂, q₁, s₁, rfl, rfl, rfl, hadvance, hrest⟩

end Queue

end WorldScript
