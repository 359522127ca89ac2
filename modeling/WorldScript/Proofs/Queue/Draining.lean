import Mathlib.Data.Multiset.DershowitzManna
import WorldScript.Proofs.Queue.History

/-! # Draining a queue comes to an end

A queue can grow while it is drained, and tasks that are due at once run in the same call, so
neither the number of tasks nor the clock says how much is left to do. But suppose that tasks have a
rank, and that a task schedules only tasks of smaller rank, be they as many as they may. Then a task
that runs is replaced by others below it, and the multiset of the ranks becomes smaller in the
Dershowitz–Manna order, which is well-founded.

What a task does here comes with a bound on its own work, as the loops of the queue have bounds on
the number of tasks. To come to an end is to give one and the same answer whenever the bounds are
large enough.

* `Queue.Fire.Settles`: tasks that end, and schedule only tasks of smaller rank.
* `Queue.ranksLT_of_ran`: a task that ran leaves smaller ranks.
* `Queue.Fire.Settles.runDue`, `Queue.Fire.Settles.drain`: the loops of the queue end. -/

namespace WorldScript.Queue

variable {α σ : Type}

/-! ### What scheduling adds -/

theorem now_scheduleAll (q : Queue α) (requests : List (Nat × String × α)) :
    (q.scheduleAll requests).now = q.now := by
  induction requests generalizing q with
  | nil => rfl
  | cons r requests ih => exact ih (q.schedule r.1 r.2.1 r.2.2)

theorem tasks_scheduleAll (q : Queue α) (requests : List (Nat × String × α)) :
    ∃ added, (q.scheduleAll requests).tasks = q.tasks ++ added ∧
      ∀ t ∈ added, ∃ r ∈ requests, t.payload = r.2.2 ∧ t.due = q.now + r.1 := by
  induction requests generalizing q with
  | nil => exact ⟨[], (List.append_nil _).symm, by simp⟩
  | cons r requests ih =>
    obtain ⟨added, htasks, hadded⟩ := ih (q.schedule r.1 r.2.1 r.2.2)
    refine ⟨_ :: added, htasks.trans (List.append_assoc ..), ?_⟩
    intro t ht
    rcases List.mem_cons.mp ht with rfl | ht
    · exact ⟨r, List.mem_cons_self, rfl, rfl⟩
    · obtain ⟨r', hr', hsame⟩ := hadded t ht
      exact ⟨r', List.mem_cons_of_mem r hr', hsame⟩

/-- Every payload that waits has the property. -/
def All (P : α → Prop) (q : Queue α) : Prop := ∀ t ∈ q.tasks, P t.payload

theorem All.remove {P : α → Prop} {q : Queue α} (h : q.All P) (id : Nat) : (q.remove id).All P :=
  fun t ht => h t (mem_tasks_remove.mp ht).1

theorem All.scheduleAll {P : α → Prop} {q : Queue α} (h : q.All P)
    {requests : List (Nat × String × α)} (hrequests : ∀ r ∈ requests, P r.2.2) :
    (q.scheduleAll requests).All P := by
  obtain ⟨added, htasks, hadded⟩ := q.tasks_scheduleAll requests
  intro t ht
  rw [htasks] at ht
  rcases List.mem_append.mp ht with ht | ht
  · exact h t ht
  · obtain ⟨r, hr, hpayload, -⟩ := hadded t ht
    rw [hpayload]
    exact hrequests r hr

/-! ### Ranks -/

variable (rank : α → Nat)

/-- The ranks of what waits. -/
def ranks (q : Queue α) : Multiset Nat := (q.tasks.map fun t => rank t.payload : List Nat)

/-- The first queue has smaller ranks than the second. -/
def RanksLT (q q' : Queue α) : Prop := Multiset.IsDershowitzMannaLT (q.ranks rank) (q'.ranks rank)

theorem ranksLT_wellFounded : WellFounded (RanksLT rank : Queue α → Queue α → Prop) :=
  InvImage.wf (ranks rank) Multiset.wellFounded_isDershowitzMannaLT

variable {rank}

/-- The ranks are those of the queue without a task and those that went with it. -/
theorem ranks_remove (q : Queue α) (id : Nat) :
    q.ranks rank = (q.remove id).ranks rank +
      ((q.tasks.filter (·.id = id)).map fun t => rank t.payload : List Nat) := by
  have hsplit := List.filter_append_perm (fun t : Task α => decide (t.id ≠ id)) q.tasks
  simp only [ranks, remove, Multiset.coe_add, Multiset.coe_eq_coe, ← List.map_append]
  refine (List.Perm.map _ ?_).symm
  simpa using hsplit

/-- **A task that ran leaves smaller ranks**, however many tasks of smaller rank it scheduled. -/
theorem ranksLT_of_ran {q : Queue α} {t : Task α} (ht : t ∈ q.tasks)
    {requests : List (Nat × String × α)} (hrequests : ∀ r ∈ requests, rank r.2.2 < rank t.payload) :
    RanksLT rank ((q.remove t.id).scheduleAll requests) q := by
  obtain ⟨added, htasks, hadded⟩ := (q.remove t.id).tasks_scheduleAll requests
  have hranks : ((q.remove t.id).scheduleAll requests).ranks rank =
      (q.remove t.id).ranks rank + (added.map fun t => rank t.payload : List Nat) := by
    simp only [ranks, htasks, List.map_append, Multiset.coe_add]
  have hmem : rank t.payload ∈ (q.tasks.filter (·.id = t.id)).map fun t => rank t.payload :=
    List.mem_map_of_mem (List.mem_filter.mpr ⟨ht, by simp⟩)
  refine ⟨_, _, _, ?_, hranks, ranks_remove q t.id, ?_⟩
  · intro hempty
    rw [Multiset.empty_eq_zero, Multiset.coe_eq_zero] at hempty
    rw [hempty] at hmem
    cases hmem
  · intro y hy
    obtain ⟨u, hu, rfl⟩ := List.mem_map.mp (Multiset.mem_coe.mp hy)
    obtain ⟨r, hr, hpayload, -⟩ := hadded u hu
    refine ⟨_, Multiset.mem_coe.mpr hmem, ?_⟩
    rw [hpayload]
    exact hrequests r hr

/-! ### The loops -/

/-- When the wait for the next task is over, there is one that is due. -/
theorem exists_due_of_nextWakeup? {q : Queue α} {wait : Nat} (h : q.nextWakeup? = some wait) :
    ∃ t ∈ q.tasks, t.due ≤ q.now + wait := by
  obtain ⟨t, ht, hremaining⟩ := List.mem_map.mp (List.min?_mem h)
  refine ⟨t, ht, ?_⟩
  unfold remaining at hremaining
  omega

/-- Tasks that settle. With a bound that is large enough a good task ends, and then in the same way
with every larger bound. All that it does to the queue is to schedule good tasks of smaller rank. -/
structure Fire.Settles (fire : Nat → Fire α σ) (Good : α → Prop) (rank : α → Nat) : Prop where
  mono : ∀ {n k t q s r}, n ≤ k → fire n t q s = some r → fire k t q s = some r
  ends : ∀ t q s, Good t.payload → ∃ n r, fire n t q s = some r
  schedules : ∀ {n t q s q' s'}, Good t.payload → fire n t q s = some (q', s') →
    ∃ requests, (∀ r ∈ requests, Good r.2.2 ∧ rank r.2.2 < rank t.payload) ∧
      q' = q.scheduleAll requests

namespace Fire.Settles

variable {fire : Nat → Fire α σ} {Good : α → Prop} {rank : α → Nat} (hfire : Settles fire Good rank)

include hfire

/-- One task runs to its end: it is gone, and smaller ones are there in its place. -/
theorem fires {q : Queue α} (hq : q.All Good) {t : Task α} (ht : t ∈ q.tasks) (s : σ) :
    ∃ bound q' s', (∀ limit, bound ≤ limit → fire limit t (q.remove t.id) s = some (q', s')) ∧
      q'.All Good ∧ q'.now = q.now ∧ RanksLT rank q' q := by
  obtain ⟨bound, ⟨q', s'⟩, hend⟩ := hfire.ends t (q.remove t.id) s (hq t ht)
  obtain ⟨requests, hrequests, rfl⟩ := hfire.schedules (hq t ht) hend
  refine ⟨bound, _, s', fun limit hlimit => hfire.mono hlimit hend, ?_, ?_, ?_⟩
  · exact (hq.remove t.id).scheduleAll fun r hr => (hrequests r hr).1
  · exact now_scheduleAll _ requests
  · exact ranksLT_of_ran ht fun r hr => (hrequests r hr).2

/-- **Running what is due ends.** Nothing is due then, and if anything was, the ranks are smaller.
By induction on the ranks. -/
theorem runDue {q : Queue α} (hq : q.All Good) (s : σ) :
    ∃ bound n q' s', (∀ limit rounds, bound ≤ limit → bound ≤ rounds →
        Queue.runDue (fire limit) rounds q s = some (n, q', s')) ∧
      q'.All Good ∧ q'.now = q.now ∧ q'.due? = none ∧ (q' = q ∨ RanksLT rank q' q) := by
  induction q using (ranksLT_wellFounded rank).induction generalizing s with
  | _ q ih =>
    cases hdue : q.due? with
    | none =>
      refine ⟨0, 0, q, s, fun limit rounds _ _ => ?_, hq, rfl, hdue, Or.inl rfl⟩
      unfold Queue.runDue
      rw [hdue]
    | some t =>
      obtain ⟨b₁, q₁, s₁, hfires, hq₁, hnow₁, hlt₁⟩ := hfire.fires hq (due?_eq_some hdue).1 s
      obtain ⟨b₂, n, q₂, s₂, hrest, hq₂, hnow₂, hdone, hlt₂⟩ := ih q₁ hlt₁ hq₁ s₁
      refine ⟨max b₁ b₂ + 1, n + 1, q₂, s₂, ?_, hq₂, hnow₂.trans hnow₁, hdone, Or.inr ?_⟩
      · intro limit rounds hlimit hrounds
        obtain ⟨less, rfl⟩ : ∃ less, rounds = less + 1 := ⟨rounds - 1, by omega⟩
        unfold Queue.runDue
        rw [hdue]
        simp only [hfires limit (by omega), hrest limit less (by omega) (by omega),
          Option.bind_eq_bind, Option.bind_some, Option.pure_def]
      · rcases hlt₂ with rfl | hlt₂
        · exact hlt₁
        · exact hlt₂.trans hlt₁

/-- Moving the clock ends, as running what is due then does. -/
theorem advance {q : Queue α} (hq : q.All Good) (elapsed : Nat) (s : σ) :
    ∃ bound n q' s', (∀ limit rounds, bound ≤ limit → bound ≤ rounds →
        Queue.advance (fire limit) rounds elapsed q s = some (n, q', s')) ∧
      q'.All Good ∧ q'.now = q.now + elapsed ∧ (∀ t ∈ q'.tasks, q'.now < t.due) ∧
      (q'.tasks = q.tasks ∨ RanksLT rank q' q) := by
  obtain ⟨bound, n, q', s', hrun, hq', hnow, hdue, hlt⟩ :=
    hfire.runDue (q := { q with now := q.now + elapsed }) hq s
  refine ⟨bound, n, q', s', hrun, hq', hnow, due?_eq_none_iff.mp hdue, ?_⟩
  rcases hlt with rfl | hlt
  · exact Or.inl rfl
  · exact Or.inr hlt

/-- **Draining ends, and leaves no task.** By induction on the ranks: the first task at least runs
in each round. -/
theorem drain {q : Queue α} (hq : q.All Good) (s : σ) :
    ∃ bound n q' s', (∀ limit rounds, bound ≤ limit → bound ≤ rounds →
        Queue.drain (fire limit) limit rounds q s = some (n, q', s')) ∧ q'.tasks = [] := by
  induction q using (ranksLT_wellFounded rank).induction generalizing s with
  | _ q ih =>
    cases hwait : q.nextWakeup? with
    | none =>
      refine ⟨0, 0, q, s, fun limit rounds _ _ => ?_, nextWakeup?_eq_none_iff.mp hwait⟩
      unfold Queue.drain
      rw [hwait]
    | some wait =>
      obtain ⟨b₁, n₁, q₁, s₁, hround, hq₁, hnow₁, hlater, hlt₁⟩ := hfire.advance hq wait s
      have hsmaller : RanksLT rank q₁ q := by
        refine hlt₁.resolve_left fun hsame => ?_
        obtain ⟨t, ht, hdue⟩ := exists_due_of_nextWakeup? hwait
        have hlt := hlater t (hsame ▸ ht)
        omega
      obtain ⟨b₂, n₂, q₂, s₂, hrest, hdone⟩ := ih q₁ hsmaller hq₁ s₁
      refine ⟨max b₁ b₂ + 1, n₁ + n₂, q₂, s₂, ?_, hdone⟩
      intro limit rounds hlimit hrounds
      obtain ⟨less, rfl⟩ : ∃ less, rounds = less + 1 := ⟨rounds - 1, by omega⟩
      unfold Queue.drain
      rw [hwait]
      simp only [hround limit limit (by omega) (by omega), hrest limit less (by omega) (by omega),
        Option.bind_eq_bind, Option.bind_some, Option.pure_def]

end Fire.Settles

end WorldScript.Queue
