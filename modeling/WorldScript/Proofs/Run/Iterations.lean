import WorldScript.Proofs.Number.Value
import WorldScript.Proofs.Run.Frames

/-! # The rounds of a loop

A loop over a collection or up to a count runs its rounds on values that are fixed when the loop is
entered, whatever its body does. A *round* binds the variable to its value in a frame of its own and
runs the body there.

A loop up to a count adds one after each round. From `2 ^ 53` on that changes nothing, so that the
loop does not come to an end by counting.

* `eachRound_iff`: what a loop over a list of values does, as a chain of rounds.
* `countRounds_cases`: a loop up to a count below `2 ^ 53` is a loop over the list `1`, `2`, …
* `countRounds_iff`: a loop up to a greater count ends only where a round leaves it.
* `Statement.rounds_fixed_at_entry`: both loops run on the values at their entry. -/

namespace WorldScript

namespace Signal

/-- A round that ends with the signal is followed by the next one. -/
def GoesOn (s : Signal) : Prop := s = .normal ∨ s = .continued

/-- A loop passes the signal on. -/
def IsPassed (s : Signal) : Prop := s = .returned ∨ ∃ e, s = .failed e

end Signal

/-- A round of a loop. -/
structure Iteration where
  /-- What the variable is bound to. -/
  value : Value
  /-- The state in which the body begins. -/
  inside : Machine
  /-- How the body ends. -/
  signal : Signal
  /-- The state in which the body ends. -/
  leaving : Machine

/-- The state after the round, outside of its frame. -/
def Iteration.after (r : Iteration) : Machine := { r.leaving with vars := r.leaving.vars.pop }

section Loops
variable (limit : Nat) (name : String) (type : Ty) (body : List Statement)

/-- The round begins in the state with a new frame that binds the variable, and runs the body. -/
structure Iteration.RunsFrom (m : Machine) (r : Iteration) : Prop where
  frame : r.inside = { m with vars := r.inside.vars }
  declared : m.vars.push.declare? name type r.value = some r.inside.vars
  bound : r.inside.vars.value? name = some r.value
  runs : Statement.runAll limit body r.inside = some (r.signal, r.leaving)

/-- Rounds that follow one another, from a state to a state. -/
inductive Chained : Machine → List Iteration → Machine → Prop
  | nil (m : Machine) : Chained m [] m
  | cons {m m' : Machine} {r : Iteration} {rest : List Iteration} :
    r.RunsFrom limit name type body m → Chained r.after rest m' → Chained m (r :: rest) m'

/-- The rounds of a loop over the values, which ends with the signal. -/
structure LoopRun (values : List Value) (m : Machine) (rounds : List Iteration) (signal : Signal)
    (m' : Machine) : Prop where
  chained : Chained limit name type body m rounds m'
  /-- The variable takes the values in their order, -/
  order : rounds.map (·.value) <+: values
  /-- only the last round can end with a `break`, a `return` or an error, -/
  goesOn : ∀ r ∈ rounds.dropLast, r.signal.GoesOn
  /-- and if it does not, all values were taken. -/
  whole : (∀ r ∈ rounds, r.signal.GoesOn) → rounds.map (·.value) = values
  normal : (∀ r ∈ rounds, ¬ r.signal.IsPassed) → signal = .normal
  passed : ∀ r ∈ rounds, r.signal.IsPassed → signal = r.signal

end Loops

namespace Signal

variable {s : Signal}

theorem goesOn_iff : s.GoesOn ↔ s.afterRound = .next := by
  cases s <;> simp [GoesOn, afterRound]

theorem isPassed_iff : s.IsPassed ↔ s.afterRound = .pass := by
  cases s <;> simp [IsPassed, afterRound]

end Signal

variable {limit : Nat} {name : String} {type : Ty} {body : List Statement}
variable {values : List Value} {v : Value} {m m' : Machine} {r : Iteration}
variable {rounds : List Iteration} {signal : Signal}

/-! ### One round -/

theorem loopRound_iff (hname : m.vars.get? name = none) :
    loopRound name type (fun m => Statement.runAll limit body m) v m = some (signal, m') ↔
      ∃ r : Iteration, r.RunsFrom limit name type body m ∧ r.value = v ∧ r.signal = signal ∧
        r.after = m' := by
  obtain ⟨vars, hdeclare⟩ : ∃ vars, m.vars.push.declare? name type v = some vars :=
    ⟨_, Space.declare?_of_get? (s := m.vars.push) hname type v⟩
  have hbound : vars.value? name = some v := by
    rw [Space.value?, Space.get?_declare? hdeclare, if_pos rfl]
    rfl
  simp only [loopRound, inFrame, hdeclare, Option.map_eq_some_iff]
  constructor
  · rintro ⟨⟨signal', leaving⟩, hrun, heq⟩
    cases heq
    exact ⟨⟨v, { m with vars }, signal', leaving⟩, ⟨rfl, hdeclare, hbound, hrun⟩, rfl, rfl, rfl⟩
  · rintro ⟨r, hruns, rfl, rfl, rfl⟩
    have hvars : vars = r.inside.vars := Option.some_inj.1 (hdeclare.symm.trans hruns.declared)
    refine ⟨(r.signal, r.leaving), ?_, rfl⟩
    rw [hvars, ← hruns.runs]
    exact congrArg _ hruns.frame.symm

/-- A name that is taken makes a round fail. -/
theorem loopRound_of_taken (hname : m.vars.get? name ≠ none) :
    loopRound name type (fun m => Statement.runAll limit body m) v m =
      some (.failed (.loopVariable name), m) := by
  have htaken : m.vars.push.contains name = true := by
    rw [Space.contains, Space.get?_push]
    exact Option.isSome_iff_ne_none.2 hname
  have hdeclare : m.vars.push.declare? name type v = none := if_pos htaken
  simp only [loopRound, inFrame, hdeclare, Option.map_some, Space.pop_push]

/-- The name is free again after a round. -/
theorem Iteration.RunsFrom.get?_after (h : r.RunsFrom limit name type body m)
    (hname : m.vars.get? name = none) : r.after.vars.get? name = none := by
  have hround := (loopRound_iff hname).2 ⟨r, h, rfl, rfl, rfl⟩
  rw [← Entry.run_bound] at hround
  have htypes : r.after.vars.types = m.vars.types := Statement.entry_types hround
  rw [Space.get?_eq_none_iff] at hname ⊢
  rw [Space.type?_congr htypes, hname]

/-! ### Loops over a list -/

namespace LoopRun

theorem nil (m : Machine) : LoopRun limit name type body [] m [] .normal m where
  chained := .nil m
  order := List.prefix_rfl
  goesOn := by simp
  whole := by simp
  normal := by simp
  passed := by simp

theorem next (h : r.RunsFrom limit name type body m) (hs : r.signal.GoesOn)
    (hrest : LoopRun limit name type body values r.after rounds signal m') :
    LoopRun limit name type body (r.value :: values) m (r :: rounds) signal m' where
  chained := .cons h hrest.chained
  order := by simpa using hrest.order
  goesOn := by
    intro r' hr'
    cases rounds with
    | nil => simp at hr'
    | cons r₂ rest =>
      rw [List.dropLast_cons_of_ne_nil (List.cons_ne_nil _ _), List.mem_cons] at hr'
      rcases hr' with rfl | hr'
      · exact hs
      · exact hrest.goesOn r' hr'
  whole := by
    intro hall
    rw [List.map_cons, hrest.whole fun r' hr' => hall r' (List.mem_cons_of_mem _ hr')]
  normal := fun hnone => hrest.normal fun r' hr' => hnone r' (List.mem_cons_of_mem _ hr')
  passed := by
    intro r' hr' hpassed
    rcases List.mem_cons.1 hr' with rfl | hr'
    · rw [Signal.goesOn_iff] at hs
      rw [Signal.isPassed_iff, hs] at hpassed
      cases hpassed
    · exact hrest.passed r' hr' hpassed

theorem broke (h : r.RunsFrom limit name type body m) (hs : r.signal.afterRound = .stop) :
    LoopRun limit name type body (r.value :: values) m [r] .normal r.after where
  chained := .cons h (.nil _)
  order := by simp
  goesOn := by simp
  whole := by simp [Signal.goesOn_iff, hs]
  normal := by simp
  passed := by simp [Signal.isPassed_iff, hs]

theorem leaves (h : r.RunsFrom limit name type body m) (hs : r.signal.afterRound = .pass) :
    LoopRun limit name type body (r.value :: values) m [r] r.signal r.after where
  chained := .cons h (.nil _)
  order := by simp
  goesOn := by simp
  whole := by simp [Signal.goesOn_iff, hs]
  normal := by simp [Signal.isPassed_iff, hs]
  passed := by simp

theorem of_nil (h : LoopRun limit name type body [] m rounds signal m') :
    signal = .normal ∧ m' = m := by
  have hrounds : rounds = [] := List.map_eq_nil_iff.1 (List.prefix_nil.1 h.order)
  subst hrounds
  refine ⟨h.normal (by simp), ?_⟩
  cases h.chained
  rfl

/-- What follows a round after which the loop goes on is a loop over the other values. -/
theorem tail (h : LoopRun limit name type body (v :: values) m (r :: rounds) signal m')
    (hs : r.signal.afterRound = .next) :
    LoopRun limit name type body values r.after rounds signal m' where
  chained := by
    cases h.chained with
    | cons _ hchained => exact hchained
  order := (List.cons_prefix_cons.1 h.order).2
  goesOn := by
    intro r' hr'
    cases rounds with
    | nil => simp at hr'
    | cons r₂ rest =>
      apply h.goesOn
      rw [List.dropLast_cons_of_ne_nil (List.cons_ne_nil _ _)]
      exact List.mem_cons_of_mem _ hr'
  whole := by
    intro hall
    have := h.whole (List.forall_mem_cons.2 ⟨Signal.goesOn_iff.2 hs, hall⟩)
    exact (List.cons.inj this).2
  normal := by
    intro hnone
    refine h.normal (List.forall_mem_cons.2 ⟨?_, hnone⟩)
    rw [Signal.isPassed_iff, hs]
    simp
  passed := fun r' hr' => h.passed r' (List.mem_cons_of_mem _ hr')

/-- The first round of a loop, and what it means for the rest. -/
theorem of_cons (h : LoopRun limit name type body (v :: values) m rounds signal m') :
    ∃ r rest, rounds = r :: rest ∧ r.RunsFrom limit name type body m ∧ r.value = v ∧
      (r.signal.afterRound = .next ∧ LoopRun limit name type body values r.after rest signal m' ∨
        r.signal.afterRound = .stop ∧ signal = .normal ∧ m' = r.after ∨
        r.signal.afterRound = .pass ∧ signal = r.signal ∧ m' = r.after) := by
  cases rounds with
  | nil => cases h.whole (by simp)
  | cons r rest =>
    cases h.chained with
    | cons hruns hchained =>
      refine ⟨r, rest, rfl, hruns, (List.cons_prefix_cons.1 h.order).1, ?_⟩
      -- a round after which the loop does not go on is the last one
      have hlast : ¬ r.signal.GoesOn → rest = [] := by
        intro hstop
        cases rest with
        | nil => rfl
        | cons r₂ rest => exact absurd (h.goesOn r (by simp)) hstop
      cases hs : r.signal.afterRound with
      | next => exact .inl ⟨rfl, h.tail hs⟩
      | stop =>
        obtain rfl := hlast (by rw [Signal.goesOn_iff, hs]; simp)
        cases hchained
        exact .inr (.inl ⟨rfl, h.normal (by simp [Signal.isPassed_iff, hs]), rfl⟩)
      | pass =>
        obtain rfl := hlast (by rw [Signal.goesOn_iff, hs]; simp)
        cases hchained
        exact .inr (.inr ⟨rfl, h.passed r (by simp) (Signal.isPassed_iff.2 hs), rfl⟩)

end LoopRun

/-- What a loop over a list of values does, as a chain of rounds. -/
theorem eachRound_iff (hname : m.vars.get? name = none) :
    eachRound (loopRound name type fun m => Statement.runAll limit body m) values m =
        some (signal, m') ↔
      ∃ rounds, LoopRun limit name type body values m rounds signal m' := by
  induction values generalizing m with
  | nil =>
    constructor
    · intro h
      cases h
      exact ⟨[], .nil _⟩
    · rintro ⟨rounds, h⟩
      obtain ⟨rfl, rfl⟩ := h.of_nil
      rfl
  | cons v values ih =>
    rw [eachRound]
    constructor
    · intro h
      cases hround : loopRound name type (fun m => Statement.runAll limit body m) v m with
      | none =>
        rw [hround] at h
        cases h
      | some ending =>
        obtain ⟨signal₁, m₁⟩ := ending
        rw [hround] at h
        obtain ⟨r, hruns, rfl, rfl, rfl⟩ := (loopRound_iff hname).1 hround
        dsimp only at h
        cases hs : r.signal.afterRound with
        | next =>
          rw [hs] at h
          obtain ⟨rest, hrest⟩ := (ih (hruns.get?_after hname)).1 h
          exact ⟨_, .next hruns (Signal.goesOn_iff.2 hs) hrest⟩
        | stop =>
          rw [hs] at h
          cases h
          exact ⟨_, .broke hruns hs⟩
        | pass =>
          rw [hs] at h
          cases h
          exact ⟨_, .leaves hruns hs⟩
    · rintro ⟨rounds, h⟩
      obtain ⟨r, rest, -, hruns, rfl, hcases⟩ := h.of_cons
      have hround := (loopRound_iff hname).2 ⟨r, hruns, rfl, rfl, rfl⟩
      rcases hcases with ⟨hs, hrest⟩ | ⟨hs, rfl, rfl⟩ | ⟨hs, rfl, rfl⟩
      · simp only [hround, hs]
        exact (ih (hruns.get?_after hname)).2 ⟨rest, hrest⟩
      · simp only [hround, hs]
        rfl
      · simp only [hround, hs]

/-- A loop over a list comes to an end if its rounds do. -/
theorem eachRound_ne_none {round : Value → Run} (hround : ∀ v m, round v m ≠ none)
    (values : List Value) (m : Machine) : eachRound round values m ≠ none := by
  induction values generalizing m with
  | nil => exact Option.some_ne_none _
  | cons v values ih =>
    rw [eachRound]
    cases h : round v m with
    | none => exact absurd h (hround v m)
    | some ending =>
      obtain ⟨signal, m'⟩ := ending
      cases hs : signal.afterRound with
      | next => simpa only [hs] using ih m'
      | stop => simp only [hs, ne_eq, reduceCtorEq, not_false_eq_true]
      | pass => simp only [hs, ne_eq, reduceCtorEq, not_false_eq_true]

/-! ### Loops up to a count -/

/-- The numbers `i`, `i + 1`, …, `k` of them. -/
def Value.numbers (i k : Nat) : List Value := (List.range' i k).map fun j => .number (Float.ofNat j)

theorem Value.numbers_succ (i k : Nat) :
    Value.numbers i (k + 1) = .number (Float.ofNat i) :: Value.numbers (i + 1) k := rfl

/-- Counting up is a loop over the list of the numbers. A bound on the rounds can only cut it
short. -/
theorem countRounds_cases {last : Nat} (hlast : last < 2 ^ 53) (round : Value → Run)
    {i k : Nat} (hi : 1 ≤ i) (hk : i + k = last + 1) (limit : Nat) (m : Machine) :
    (countRounds (fun x => round (.number x)) (Float.ofNat last) limit (Float.ofNat i) m = none ∧
        limit ≤ k) ∨
      countRounds (fun x => round (.number x)) (Float.ofNat last) limit (Float.ofNat i) m =
        eachRound round (Value.numbers i k) m := by
  have hle : Float.ofNat i ≤ Float.ofNat last ↔ i ≤ last :=
    Number.ofNat_le_ofNat (by omega) (by omega)
  induction k generalizing i limit m with
  | zero =>
    cases limit with
    | zero => exact .inl ⟨rfl, by omega⟩
    | succ limit =>
      right
      rw [countRounds, if_neg (mt hle.1 (by omega))]
      rfl
  | succ k ih =>
    cases limit with
    | zero => exact .inl ⟨rfl, by omega⟩
    | succ limit =>
      rw [Value.numbers_succ, countRounds, eachRound, if_pos (hle.2 (by omega)),
        Number.ofNat_add_one hi (by omega)]
      cases round (.number (Float.ofNat i)) m with
      | none => exact .inr rfl
      | some ending =>
        obtain ⟨signal, m'⟩ := ending
        cases hs : signal.afterRound with
        | next =>
          simp only [hs]
          rcases ih (i := i + 1) (by omega) (by omega) limit m'
            (Number.ofNat_le_ofNat (by omega) (by omega)) with ⟨h, hlt⟩ | h
          · exact .inl ⟨h, by omega⟩
          · exact .inr h
        | stop => simp only [hs, or_true]
        | pass => simp only [hs, or_true]

theorem countRounds_of_countsTo {count : Float} {last : Nat} (hcount : Number.CountsTo count last)
    (hlast : last < 2 ^ 53) (round : Value → Run) (limit : Nat) (m : Machine) :
    (countRounds (fun x => round (.number x)) count limit 1.0 m = none ∧ limit ≤ last) ∨
      countRounds (fun x => round (.number x)) count limit 1.0 m =
        eachRound round (Value.numbers 1 last) m := by
  unfold Number.CountsTo at hcount
  split at hcount
  · rw [hcount, show (1.0 : Float) = Float.ofNat 1 from rfl]
    exact countRounds_cases hlast round le_rfl (by omega) limit m
  · rename_i hone
    subst hcount
    cases limit with
    | zero => exact .inl ⟨rfl, le_rfl⟩
    | succ limit =>
      right
      rw [countRounds, if_neg hone]
      rfl

/-! ### Loops that count to `2 ^ 53` or further -/

/-- The numbers that counting from `i` on goes through, `k` of them: `2 ^ 53` comes again and
again. -/
def Value.counted (i k : Nat) : List Value :=
  (List.range' i k).map fun j => .number (Float.ofNat (min j (2 ^ 53)))

theorem Value.counted_succ (i k : Nat) :
    Value.counted i (k + 1) = .number (Float.ofNat (min i (2 ^ 53))) :: Value.counted (i + 1) k := rfl

theorem Value.counted_eq_numbers {k : Nat} (hk : k ≤ 2 ^ 53) :
    Value.counted 1 k = Value.numbers 1 k := by
  refine List.map_congr_left fun j hj => ?_
  rw [List.mem_range'_1] at hj
  rw [min_eq_left (by omega)]

/-- Adding one to `2 ^ 53` changes nothing. -/
theorem ofNat_min_add_one {i : Nat} (hi : 1 ≤ i) :
    Float.ofNat (min i (2 ^ 53)) + 1.0 = Float.ofNat (min (i + 1) (2 ^ 53)) := by
  rcases lt_or_ge i (2 ^ 53) with hlt | hge
  · rw [min_eq_left hlt.le, min_eq_left hlt, Number.ofNat_add_one hi hlt]
  · rw [min_eq_right hge, min_eq_right (by omega)]
    decide +kernel

/-- Some round does not go on to the next one. -/
def LeavesLoop (rounds : List Iteration) : Prop := ∃ r ∈ rounds, ¬ r.signal.GoesOn

/-- A loop up to a great count ends only where a round leaves it. The induction is on the bound for
the rounds that are left, which is not that of the rounds themselves. -/
theorem countRounds_iff {count : Float} (hcount : Float.ofNat (2 ^ 53) ≤ count)
    (hname : m.vars.get? name = none) {i : Nat} (hi : 1 ≤ i) (left : Nat) :
    countRounds (fun x => loopRound name type (fun m => Statement.runAll limit body m) (.number x))
        count left (Float.ofNat (min i (2 ^ 53))) m = some (signal, m') ↔
      ∃ k ≤ left, ∃ rounds, LoopRun limit name type body (Value.counted i k) m rounds signal m' ∧
        LeavesLoop rounds := by
  have hnil {m : Machine} {rounds : List Iteration} (hleaves : LeavesLoop rounds)
      (h : LoopRun limit name type body [] m rounds signal m') : False := by
    obtain ⟨r, hr, -⟩ := hleaves
    rw [List.map_eq_nil_iff.1 (List.prefix_nil.1 h.order)] at hr
    cases hr
  induction left generalizing i m with
  | zero =>
    refine iff_of_false (by simp [countRounds]) ?_
    rintro ⟨k, hk, rounds, h, hleaves⟩
    obtain rfl : k = 0 := by omega
    exact hnil hleaves h
  | succ left ih =>
    rw [countRounds, if_pos (Number.ofNat_le_of_le hcount (by omega)), ofNat_min_add_one hi]
    constructor
    · intro h
      cases hround : loopRound name type (fun m => Statement.runAll limit body m)
        (.number (Float.ofNat (min i (2 ^ 53)))) m with
      | none =>
        rw [hround] at h
        cases h
      | some ending =>
        obtain ⟨signal₁, m₁⟩ := ending
        rw [hround] at h
        obtain ⟨r, hruns, hvalue, rfl, rfl⟩ := (loopRound_iff hname).1 hround
        dsimp only at h
        cases hs : r.signal.afterRound with
        | next =>
          rw [hs] at h
          obtain ⟨k, hk, rest, hrest, r', hr', hnot⟩ :=
            (ih (hruns.get?_after hname) (by omega)).1 h
          refine ⟨k + 1, by omega, r :: rest, ?_, r', List.mem_cons_of_mem _ hr', hnot⟩
          rw [Value.counted_succ, ← hvalue]
          exact .next hruns (Signal.goesOn_iff.2 hs) hrest
        | stop =>
          rw [hs] at h
          cases h
          refine ⟨1, by omega, [r], ?_, r, List.mem_cons_self, by simp [Signal.goesOn_iff, hs]⟩
          rw [Value.counted_succ, ← hvalue]
          exact .broke hruns hs
        | pass =>
          rw [hs] at h
          cases h
          refine ⟨1, by omega, [r], ?_, r, List.mem_cons_self, by simp [Signal.goesOn_iff, hs]⟩
          rw [Value.counted_succ, ← hvalue]
          exact .leaves hruns hs
    · rintro ⟨k, hk, rounds, h, hleaves⟩
      cases k with
      | zero => exact absurd h (hnil hleaves)
      | succ k =>
        rw [Value.counted_succ] at h
        obtain ⟨r, rest, rfl, hruns, hvalue, hcases⟩ := h.of_cons
        have hround := (loopRound_iff hname).2 ⟨r, hruns, hvalue, rfl, rfl⟩
        rcases hcases with ⟨hs, hrest⟩ | ⟨hs, rfl, rfl⟩ | ⟨hs, rfl, rfl⟩
        · simp only [hround, hs]
          obtain ⟨r', hr', hnot⟩ := hleaves
          rcases List.mem_cons.1 hr' with rfl | hr'
          · exact absurd (Signal.goesOn_iff.2 hs) hnot
          · exact (ih (hruns.get?_after hname) (by omega)).2
              ⟨k, by omega, rest, hrest, r', hr', hnot⟩
        · simp only [hround, hs]
          rfl
        · simp only [hround, hs]

theorem countRounds_one_iff {count : Float} (hcount : Float.ofNat (2 ^ 53) ≤ count)
    (hname : m.vars.get? name = none) :
    countRounds (fun x => loopRound name type (fun m => Statement.runAll limit body m) (.number x))
        count limit 1.0 m = some (signal, m') ↔
      ∃ k ≤ limit, ∃ rounds, LoopRun limit name type body (Value.counted 1 k) m rounds signal m' ∧
        LeavesLoop rounds :=
  countRounds_iff hcount hname le_rfl limit

/-! ### Loop statements -/

/-- The result of a loop that was entered in the state, for a variable, a body and the values. A
bound on the rounds that is not large enough can make it have none. -/
structure IteratesOver (limit : Nat) (name : String) (type : Ty) (body : List Statement)
    (values : List Value) (m : Machine) (enough : Prop) (result : Option Ending) : Prop where
  describes : m.vars.get? name = none → ∀ signal m', result = some (signal, m') →
    ∃ rounds, LoopRun limit name type body values m rounds signal m'
  realizes : enough → m.vars.get? name = none → ∀ rounds signal m',
    LoopRun limit name type body values m rounds signal m' → result = some (signal, m')
  total : enough → (∀ inside, Statement.runAll limit body inside ≠ none) → result ≠ none
  /-- A name that is visible at the entry cannot be bound. -/
  taken : enough → m.vars.get? name ≠ none → result =
    some (if values.isEmpty then m.done else (.failed (.loopVariable name), m))

/-- The result of a loop that counts without end, entered in the state. -/
structure IteratesEndlessly (limit : Nat) (name : String) (body : List Statement) (m : Machine)
    (result : Option Ending) : Prop where
  describes : m.vars.get? name = none → ∀ signal m', result = some (signal, m') →
    ∃ k rounds, LoopRun limit name .number body (Value.counted 1 k) m rounds signal m' ∧
      LeavesLoop rounds
  realizes : m.vars.get? name = none → ∀ k ≤ limit, ∀ rounds signal m',
    LoopRun limit name .number body (Value.counted 1 k) m rounds signal m' → LeavesLoop rounds →
    result = some (signal, m')
  /-- If the body never leaves the loop, then no bound on the rounds is large enough. -/
  endless : m.vars.get? name = none →
    (∀ inside signal m', Statement.runAll limit body inside = some (signal, m') → signal.GoesOn) →
    result = none
  taken : 0 < limit → m.vars.get? name ≠ none → result = some (.failed (.loopVariable name), m)

theorem loopRound_ne_none (hbody : ∀ inside, Statement.runAll limit body inside ≠ none) (v : Value)
    (m : Machine) : loopRound name type (fun m => Statement.runAll limit body m) v m ≠ none := by
  unfold loopRound inFrame
  cases hdeclare : m.vars.push.declare? name type v with
  | none => simp [hdeclare]
  | some vars => simpa [hdeclare] using hbody _

theorem eachRound_of_taken (hname : m.vars.get? name ≠ none) :
    eachRound (loopRound name type fun m => Statement.runAll limit body m) values m =
      some (if values.isEmpty then m.done else (.failed (.loopVariable name), m)) := by
  cases values with
  | nil => rfl
  | cons v values =>
    rw [eachRound, loopRound_of_taken hname]
    rfl

theorem iteratesOver_of_eachRound {enough : Prop} {result : Option Ending}
    (h : result = none ∧ ¬ enough ∨
      result = eachRound (loopRound name type fun m => Statement.runAll limit body m) values m) :
    IteratesOver limit name type body values m enough result := by
  rcases h with ⟨rfl, hnot⟩ | rfl
  · exact ⟨by simp, fun h => absurd h hnot, fun h => absurd h hnot, fun h => absurd h hnot⟩
  · exact ⟨fun hname _ _ => (eachRound_iff hname).1,
      fun _ hname rounds _ _ h => (eachRound_iff hname).2 ⟨rounds, h⟩,
      fun _ hbody => eachRound_ne_none (loopRound_ne_none hbody) values m,
      fun _ hname => eachRound_of_taken hname⟩

theorem Chained.runs (h : Chained limit name type body m rounds m') (hr : r ∈ rounds) :
    Statement.runAll limit body r.inside = some (r.signal, r.leaving) := by
  induction h with
  | nil m => cases hr
  | cons hruns _ ih =>
    rcases List.mem_cons.1 hr with rfl | hr
    · exact hruns.runs
    · exact ih hr

theorem iteratesEndlessly_countRounds {count : Float} (hcount : Float.ofNat (2 ^ 53) ≤ count) :
    IteratesEndlessly limit name body m (countRounds (fun x => loopRound name .number
      (fun m => Statement.runAll limit body m) (.number x)) count limit 1.0 m) := by
  refine ⟨?_, ?_, ?_, ?_⟩
  · intro hname signal m' h
    obtain ⟨k, -, rounds, hrounds⟩ := (countRounds_one_iff hcount hname).1 h
    exact ⟨k, rounds, hrounds⟩
  · intro hname k hk rounds signal m' h hleaves
    exact (countRounds_one_iff hcount hname).2 ⟨k, hk, rounds, h, hleaves⟩
  · intro hname hbody
    rw [Option.eq_none_iff_forall_ne_some]
    rintro ⟨signal, m'⟩ h
    obtain ⟨k, -, rounds, hrounds, r, hr, hnot⟩ := (countRounds_one_iff hcount hname).1 h
    exact hnot (hbody _ _ _ (hrounds.chained.runs hr))
  · intro hlimit hname
    obtain ⟨fuel, rfl⟩ : ∃ fuel, limit = fuel + 1 := ⟨limit - 1, by omega⟩
    have hone : (1.0 : Float) ≤ count := Number.ofNat_le_of_le hcount (i := 1) (by omega)
    rw [countRounds, if_pos hone, loopRound_of_taken hname]
    rfl

namespace Statement

/-- **The rounds of a loop are fixed at its entry.** A loop over a collection runs on the contents
that the collection has once its expression is evaluated, and a loop up to a count on the numbers
from one to the rounded count, whatever the body does.

For the count this holds below `2 ^ 53` and nowhere else. A rounded count either is one of the
numbers below `2 ^ 53`, or counts nothing because it is below one or not a number, or is `2 ^ 53` or
more. In the last case one is added to `2 ^ 53` in vain: the first `2 ^ 53` rounds take the numbers
in their order, but the loop ends only where a round leaves it. -/
theorem rounds_fixed_at_entry (limit line : Nat) (name : String) (body : List Statement)
    (m m₁ : Machine) :
    (∀ element items c, m.eval items = (.ok (.collection c), m₁) →
      IteratesOver limit name element body (m₁.world.heap.lists.get c) m₁ True
        ((forEach line name element items body).run limit m)) ∧
    (∀ n, (∃ last < 2 ^ 53, Number.CountsTo (Number.round n) last) ↔
      ¬ Float.ofNat (2 ^ 53) ≤ Number.round n) ∧
    (∀ count n last, m.eval count = (.ok (.number n), m₁) →
      Number.CountsTo (Number.round n) last → last < 2 ^ 53 →
      IteratesOver limit name .number body (Value.numbers 1 last) m₁ (last < limit)
        ((forCount line name count body).run limit m)) ∧
    (∀ count n, m.eval count = (.ok (.number n), m₁) → Float.ofNat (2 ^ 53) ≤ Number.round n →
      IteratesEndlessly limit name body m₁ ((forCount line name count body).run limit m)) ∧
    ∀ k ≤ 2 ^ 53, Value.counted 1 k = Value.numbers 1 k := by
  refine ⟨?_, fun n => Number.exists_countsTo_iff, ?_, ?_, fun k => Value.counted_eq_numbers⟩
  · intro element items c heval
    apply iteratesOver_of_eachRound
    right
    simp only [run, heval]
  · intro count n last heval hcount hlast
    apply iteratesOver_of_eachRound
    simp only [run, heval]
    exact (countRounds_of_countsTo hcount hlast _ limit m₁).imp_left (And.imp_right not_lt.2)
  · intro count n heval hcount
    simp only [run, heval]
    exact iteratesEndlessly_countRounds hcount

/-- A variable that leads to a collection of two texts. -/
def twoItems : Machine :=
  ⟨⟨⟨⟨#[[.text "a", .text "b"]]⟩, .empty, .empty⟩, []⟩,
    ⟨⟨[("list", ⟨.text ||| .collection, .collection 0⟩)]⟩, []⟩, none, "prog"⟩

/-- The body `additem list @x`. -/
def appendAgain : List Statement := [change 2 "list" (.add (.var "x" .text))]

/-- A loop that appends to the collection it runs on has a round for each of the two items, and a
loop to 2.4 has the rounds 1 and 2. A loop to `2 ^ 53` that is left at once has one round. -/
theorem rounds_fixed_at_entry_twoItems :
    (∃ m' rounds, (forEach 1 "x" .text (.var "list" (.text ||| .collection)) appendAgain).run 1
        twoItems = some (.normal, m') ∧
      LoopRun 1 "x" .text appendAgain [.text "a", .text "b"] twoItems rounds .normal m' ∧
      m'.world.heap.lists.get 0 = [.text "a", .text "b", .text "a", .text "b"]) ∧
    (∃ m' rounds, (forCount 1 "x" (.literal (.number 2.4)) appendAgain).run 3 twoItems =
        some (.normal, m') ∧
      LoopRun 3 "x" .number appendAgain [.number 1, .number 2] twoItems rounds .normal m') ∧
    ∃ m' k rounds, (forCount 1 "x" (.literal (.number 9007199254740992)) [breakOut]).run 1
        twoItems = some (.normal, m') ∧
      LoopRun 1 "x" .number [breakOut] (Value.counted 1 k) twoItems rounds .normal m' ∧
      LeavesLoop rounds := by
  refine ⟨?_, ?_, ?_⟩
  · obtain ⟨m', hrun, hlist⟩ : ∃ m', (forEach 1 "x" .text (.var "list" (.text ||| .collection))
        appendAgain).run 1 twoItems = some (.normal, m') ∧
        m'.world.heap.lists.get 0 = [.text "a", .text "b", .text "a", .text "b"] := ⟨_, rfl, rfl⟩
    have hloop := (rounds_fixed_at_entry 1 1 "x" appendAgain twoItems twoItems).1 .text
      (.var "list" (.text ||| .collection)) 0 rfl
    obtain ⟨rounds, hrounds⟩ := hloop.describes rfl .normal m' hrun
    exact ⟨m', rounds, hrun, hrounds, hlist⟩
  · have hcount : Number.CountsTo (Number.round 2.4) 2 := by
      rw [Number.CountsTo, if_pos (by decide +kernel)]
      decide +kernel
    obtain ⟨m', hrun⟩ : ∃ m', (forCount 1 "x" (.literal (.number 2.4)) appendAgain).run 3
        twoItems = some (.normal, m') := ⟨_, rfl⟩
    have hloop := (rounds_fixed_at_entry 3 1 "x" appendAgain twoItems twoItems).2.2.1
      (.literal (.number 2.4)) 2.4 2 rfl hcount (by omega)
    obtain ⟨rounds, hrounds⟩ := hloop.describes rfl .normal m' hrun
    exact ⟨m', rounds, hrun, hrounds⟩
  · obtain ⟨m', hrun⟩ : ∃ m', (forCount 1 "x" (.literal (.number 9007199254740992))
        [breakOut]).run 1 twoItems = some (.normal, m') := ⟨_, rfl⟩
    have hloop := (rounds_fixed_at_entry 1 1 "x" [breakOut] twoItems twoItems).2.2.2.1
      (.literal (.number 9007199254740992)) 9007199254740992 rfl (by decide +kernel)
    obtain ⟨k, rounds, hrounds⟩ := hloop.describes rfl .normal m' hrun
    exact ⟨m', k, rounds, hrun, hrounds⟩

/-- The count `2 ^ 53` is its own rounded value, but a loop up to it with an empty body has no end,
whatever the bound on its rounds. -/
theorem forCount_without_end :
    Number.CountsTo (Number.round 9007199254740992) (2 ^ 53) ∧
      ∀ limit, (forCount 1 "i" (.literal (.number 9007199254740992)) []).run limit twoItems =
        none := by
  constructor
  · rw [Number.CountsTo, if_pos (by decide +kernel)]
    decide +kernel
  · intro limit
    have hcount : Float.ofNat (2 ^ 53) ≤ Number.round 9007199254740992 := by decide +kernel
    refine (iteratesEndlessly_countRounds hcount).endless rfl ?_
    intro inside signal m' hrun
    cases hrun
    exact .inl rfl

end Statement

end WorldScript
