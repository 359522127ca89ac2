import WorldScript.Proofs.Queue.Draining
import WorldScript.Proofs.Run.Schedules

/-! # The delays of programs come to an end

A block that waits in a queue adds nothing to it but the blocks of its own delays, and these are
smaller than it is. So if each block, run alone, comes to an end, then the queue as a whole does,
even if blocks that are due at once are scheduled by the dozen while others run.

A run has a bound on the rounds of its loops, and one that ends is the same run with every larger
bound.

* `Statement.runAll_of_le`: larger bounds change nothing.
* `Statement.Halts`: a sequence that ends from every state.
* `Statement.Finite.halts`: a sequence without counting loops and loops with conditions does.
* `DelayedBlock.queue_settles`: queues of delayed blocks. -/

namespace WorldScript

namespace Statement

variable {limit limit' : Nat} {s : Statement} {m : Machine} {stage : Stage} {ending : Ending}

/-! ### Larger bounds -/

/-- A run of the sequence that ends is the same run with a larger bound. -/
def Stable (limit limit' : Nat) (l : List Statement) : Prop :=
  ∀ m ending, runAll limit l m = some ending → runAll limit' l m = some ending

theorem entry_of_stable {e : Entry} (hbody : Stable limit limit' e.body)
    (h : e.run limit m = some ending) : e.run limit' m = some ending := by
  unfold Entry.run at h ⊢
  cases hopen : e.open? m with
  | none =>
    rw [hopen] at h
    exact h
  | some inside =>
    rw [hopen] at h
    obtain ⟨r, hr, heq⟩ := Option.map_eq_some_iff.mp h
    exact Option.map_eq_some_iff.mpr ⟨r, hbody inside r hr, heq⟩

theorem turns_of_stable (hblocks : ∀ body ∈ s.blocks, Stable limit limit' body) {n n' : Nat}
    (hn : n ≤ n') (h : s.turns limit n stage m = some ending) :
    s.turns limit' n' stage m = some ending := by
  induction n generalizing n' stage m with
  | zero => cases h
  | succ n ih =>
    obtain ⟨n', rfl⟩ : ∃ k, n' = k + 1 := ⟨n' - 1, by omega⟩
    rw [turns] at h ⊢
    cases hturn : s.turn stage m with
    | ended e =>
      rw [hturn] at h
      exact h
    | block e stage' m' =>
      rw [hturn] at h
      cases hrun : e.run limit m' with
      | none =>
        simp only [hrun] at h
        cases h
      | some r =>
        obtain ⟨signal, m''⟩ := r
        have hrun' := entry_of_stable (hblocks _ (turn_block hturn).1) hrun
        simp only [hrun] at h
        simp only [hrun']
        revert h
        cases s.afterBlock signal with
        | next => exact ih (Nat.le_of_succ_le_succ hn)
        | stop => exact id
        | pass => exact id

theorem bound_mono (hlimit : limit ≤ limit') (stage : Stage) :
    stage.bound limit ≤ stage.bound limit' := by
  cases stage with
  | count i last => exact hlimit
  | test => exact hlimit
  | _ => exact Nat.le_refl _

theorem run_of_stable (hlimit : limit ≤ limit')
    (hblocks : ∀ body ∈ s.blocks, Stable limit limit' body) (h : s.run limit m = some ending) :
    s.run limit' m = some ending := by
  rw [run_eq] at h ⊢
  cases hstart : s.start m with
  | ended e =>
    rw [hstart] at h
    exact h
  | turns stage m' =>
    rw [hstart] at h
    exact turns_of_stable hblocks (bound_mono hlimit stage) h

/-- **A run that ends is the same run with every larger bound.** -/
theorem runAll_of_le (hlimit : limit ≤ limit') (l : List Statement) : Stable limit limit' l := by
  induction l using sequence_induction with
  | nil =>
    intro m ending h
    exact h
  | cons s rest hblocks ih =>
    intro m ending h
    rw [runAll] at h ⊢
    cases hfirst : s.run limit m with
    | none =>
      rw [hfirst] at h
      cases h
    | some r =>
      obtain ⟨signal, m'⟩ := r
      rw [hfirst] at h
      rw [run_of_stable hlimit hblocks hfirst]
      cases signal with
      | normal => exact ih m' ending h
      | _ => exact h

/-! ### Sequences that end -/

/-- Whatever the state, the run of the sequence ends. -/
def Halts (l : List Statement) : Prop := ∀ m, ∃ limit ending, runAll limit l m = some ending

theorem sizeOf_lt_of_delays {l body : List Statement} (h : Delays l body) :
    sizeOf body < sizeOf l := by
  induction h with
  | @here _ body line duration hmem =>
    have hblock : body ∈ (delay line duration body).blocks := List.mem_cons_self
    exact Nat.lt_trans (sizeOf_blocks hblock) (List.sizeOf_lt_of_mem hmem)
  | inside hmem hblock _ ih =>
    exact Nat.lt_trans ih (Nat.lt_trans (sizeOf_blocks hblock) (List.sizeOf_lt_of_mem hmem))

theorem Delays.trans {l body inner : List Statement} (h : Delays l body)
    (h' : Delays body inner) : Delays l inner := by
  induction h with
  | here hmem => exact .inside hmem List.mem_cons_self h'
  | inside hmem hblock _ ih => exact .inside hmem hblock (ih h')

/-! ### Sequences that end because of their form -/

/-- The statement has as many rounds as there are items, or one. -/
def bounded : Statement → Bool
  | forCount _ _ _ _ => false
  | whileLoop _ _ _ => false
  | _ => true

/-- Neither counting loops nor loops with conditions are in the sequence or in the blocks of it. -/
inductive Finite : List Statement → Prop
  | nil : Finite []
  | cons {s : Statement} {rest : List Statement} :
    s.bounded = true → (∀ body ∈ s.blocks, Finite body) → Finite rest → Finite (s :: rest)

theorem Finite.one {body : List Statement} (hs : s.bounded = true) (hblocks : s.blocks = [body])
    (hbody : Finite body) : Finite [s] := by
  refine .cons hs ?_ .nil
  rw [hblocks]
  simpa using hbody

theorem Finite.block {l body : List Statement} (h : Finite l) (hs : s ∈ l)
    (hbody : body ∈ s.blocks) : Finite body := by
  induction h with
  | nil => cases hs
  | cons _ hblocks _ _ ih =>
    rcases List.mem_cons.mp hs with rfl | hs
    · exact hblocks body hbody
    · exact ih hs

theorem Finite.delays {l body : List Statement} (h : Finite l) (hbody : Delays l body) :
    Finite body := by
  induction hbody with
  | here hmem => exact h.block hmem List.mem_cons_self
  | inside hmem hblock _ ih => exact ih (h.block hmem hblock)

/-- After a block of such a statement fewer rounds are left. -/
theorem bound_lt_of_turn (hs : s.bounded = true) {m' : Machine} {e : Entry} {stage' : Stage}
    {signal : Signal} (hturn : s.turn stage m = .block e stage' m')
    (hafter : s.afterBlock signal = .next) : stage'.bound 1 < stage.bound 1 := by
  cases s with
  | forEach line name element items body =>
    cases stage with
    | items rest =>
      cases rest with
      | nil => cases hturn
      | cons item rest =>
        cases hturn
        exact Nat.lt_succ_self _
    | _ => cases hturn
  | switch line value cases otherwise => cases signal <;> cases hafter
  | forCount line name count body => cases hs
  | whileLoop line test body => cases hs
  | _ => cases hafter

theorem turns_end (hs : s.bounded = true)
    (hblocks : ∀ body ∈ s.blocks, ∀ m, ∃ ending, runAll limit body m = some ending) {n : Nat}
    (hn : stage.bound 1 ≤ n) : ∃ ending, s.turns limit n stage m = some ending := by
  induction n generalizing stage m with
  | zero => cases stage <;> cases hn
  | succ n ih =>
    rw [turns]
    cases hturn : s.turn stage m with
    | ended e => exact ⟨e, rfl⟩
    | block e stage' m' =>
      obtain ⟨⟨signal, m''⟩, hrun⟩ : ∃ ending, e.run limit m' = some ending := by
        unfold Entry.run
        cases e.open? m' with
        | none => exact ⟨_, rfl⟩
        | some inside =>
          obtain ⟨ending, hend⟩ := hblocks _ (turn_block hturn).1 inside
          simp only [hend]
          exact ⟨_, rfl⟩
      simp only [hrun]
      cases hafter : s.afterBlock signal with
      | next =>
        have hlt := bound_lt_of_turn hs hturn hafter
        exact ih (by omega)
      | stop => exact ⟨_, rfl⟩
      | pass => exact ⟨_, rfl⟩

/-- A sequence of this form ends from every state. -/
theorem Finite.runAll {l : List Statement} (h : Finite l) (m : Machine) :
    ∃ ending, runAll 1 l m = some ending := by
  induction h generalizing m with
  | nil => exact ⟨_, rfl⟩
  | @cons s rest hs _ _ hblocks ih =>
    obtain ⟨⟨signal, m'⟩, hfirst⟩ : ∃ ending, s.run 1 m = some ending := by
      rw [run_eq]
      cases s.start m with
      | ended e => exact ⟨e, rfl⟩
      | turns stage m' => exact turns_end hs hblocks (Nat.le_refl _)
    rw [Statement.runAll, hfirst]
    cases signal with
    | normal => exact ih m'
    | _ => exact ⟨_, rfl⟩

theorem Finite.halts {l : List Statement} (h : Finite l) : Halts l := fun m => ⟨1, h.runAll m⟩

end Statement

/-! ### Queues -/

namespace DelayedBlock

/-- The block comes to an end from every state, and so do the blocks of the delays in it. -/
def Settles (b : DelayedBlock) : Prop :=
  Statement.Halts b.body ∧ ∀ body, Statement.Delays b.body body → Statement.Halts body

theorem settles_of_finite {b : DelayedBlock} (h : Statement.Finite b.body) : b.Settles :=
  ⟨h.halts, fun _ hbody => (h.delays hbody).halts⟩

theorem fire_settles : Queue.Fire.Settles fire Settles fun b => sizeOf b.body where
  mono := by
    intro n k t q w r hle h
    simp only [fire, Option.bind_eq_bind, Option.bind_eq_some_iff] at h ⊢
    obtain ⟨ending, hrun, hresult⟩ := h
    exact ⟨ending, Statement.runAll_of_le hle _ _ _ hrun, hresult⟩
  ends := by
    intro t q w hgood
    obtain ⟨limit, ending, hrun⟩ := hgood.1 (t.payload.start q w)
    exact ⟨limit, (ending.2.queue.getD q, ending.2.world), by simp [fire, hrun]⟩
  schedules := by
    intro n t q w q' w' hgood h
    obtain ⟨requests, hrequests, hq'⟩ := schedules_of_fire h
    refine ⟨requests, fun r hr => ⟨⟨?_, ?_⟩, ?_⟩, hq'⟩
    · exact hgood.2 _ (hrequests r hr).2
    · exact fun body hbody => hgood.2 body ((hrequests r hr).2.trans hbody)
    · exact Statement.sizeOf_lt_of_delays (hrequests r hr).2

/-- **The delays of programs come to an end.** Let every block that waits, and every block of a
delay in it, end from every state. Then draining the queue ends, and no task is left; and moving the
clock by any time ends, and leaves a queue of the same sort in which nothing is due. -/
theorem queue_settles (q : Queue DelayedBlock) (w : World) (h : q.All Settles) :
    (∃ bound n q' w', q'.tasks = [] ∧ ∀ limit, bound ≤ limit →
      Queue.runAll (fire limit) limit q w = some (n, q', w')) ∧
    ∀ elapsed, ∃ bound n q' w', q'.All Settles ∧ q'.now = q.now + elapsed ∧
      (∀ t ∈ q'.tasks, q'.now < t.due) ∧ ∀ limit, bound ≤ limit →
        Queue.advance (fire limit) limit elapsed q w = some (n, q', w') := by
  constructor
  · obtain ⟨bound, n, q', w', hdrain, hdone⟩ := fire_settles.drain h w
    exact ⟨bound, n, q', w', hdone, fun limit hlimit => hdrain limit limit hlimit hlimit⟩
  · intro elapsed
    obtain ⟨bound, n, q', w', hrun, hq', hnow, hlater, -⟩ := fire_settles.advance h elapsed w
    exact ⟨bound, n, q', w', hq', hnow, hlater, fun limit hlimit => hrun limit limit hlimit hlimit⟩

/-- A block that schedules another for each of two items, at once; this does the same with a third,
which is to wait. -/
def wave : DelayedBlock where
  program := "waves"
  body :=
    [.forEach 1 "i" .number (.var "items" (.number ||| .collection))
      [.delay 2 (.literal (.number 0.0))
        [.forEach 3 "j" .number (.var "items" (.number ||| .collection))
          [.delay 4 (.literal (.number 5.0)) [.breakOut]]]]]
  vars := (Space.empty.declare? "items" (.number ||| .collection) (.collection 0)).getD .empty

theorem wave_settles : wave.Settles := by
  have hlast : Statement.Finite [.breakOut] := .cons rfl (by simp [Statement.blocks]) .nil
  exact settles_of_finite (.one rfl rfl (.one rfl rfl (.one rfl rfl (.one rfl rfl hlast))))

/-- Two such blocks, one of which is due. -/
def waves : Queue DelayedBlock := (Queue.empty.schedule 0 "now" wave).schedule 5 "later" wave

/-- The world in which the two items are. -/
def waveItems : World := ⟨(Heap.empty.newList [.number 0.0, .number 1.0]).2, []⟩

theorem queue_settles_waves :
    waves.All Settles ∧
    (∃ bound n q' w', q'.tasks = [] ∧ ∀ limit, bound ≤ limit →
      Queue.runAll (fire limit) limit waves waveItems = some (n, q', w')) ∧
    ∃ bound n q' w', q'.All Settles ∧ q'.now = 3 ∧ (∀ t ∈ q'.tasks, q'.now < t.due) ∧
      ∀ limit, bound ≤ limit →
        Queue.advance (fire limit) limit 3 waves waveItems = some (n, q', w') := by
  have hwaves : waves.All Settles := by
    intro t ht
    simp only [waves, Queue.schedule, Queue.empty, List.nil_append, List.mem_append,
      List.mem_singleton] at ht
    rcases ht with rfl | rfl
    · exact wave_settles
    · exact wave_settles
  have hsettles := queue_settles waves waveItems hwaves
  exact ⟨hwaves, hsettles.1, hsettles.2 3⟩

end DelayedBlock

end WorldScript
