import WorldScript.Proofs.Run.Transparent

/-! # Chains of arms and nested statements

An `if` tries its arms in order. It could as well have the first arm only, and in its `else` an `if`
with the other arms. The conditions of the other arms are then evaluated inside of a block, and
their statements run one block deeper, with a frame in between that has no variables. So the two
forms do the same if an empty frame is nowhere noticed, also in the variables that a delayed block
takes along.

* `Space.pad`: the space with an empty frame further out.
* `Statement.runAll_pad`: whatever runs inside does not notice the frame.
* `Statement.chain_eq_nested`: the two forms of an `if`. -/

namespace WorldScript

/-! ### An empty frame further out -/

namespace Space

/-- The frames with an empty one above the `d` outermost. -/
def padFrames (d : Nat) : List Frame → List Frame
  | [] => [.empty]
  | f :: fs => if fs.length < d then .empty :: f :: fs else f :: padFrames d fs

/-- The space with an empty frame above its `d` outermost frames, but not above the innermost. -/
def pad (d : Nat) (s : Space) : Space := ⟨s.inner, padFrames d s.outer⟩

variable {d : Nat} {s : Space}

theorem padFrames_of_le {fs : List Frame} (h : fs.length ≤ d) :
    padFrames d fs = .empty :: fs := by
  cases fs with
  | nil => rfl
  | cons f fs => exact if_pos h

theorem padFrames_cons {f : Frame} {fs : List Frame} (h : d ≤ fs.length) :
    padFrames d (f :: fs) = f :: padFrames d fs := if_neg (Nat.not_lt.mpr h)

theorem findIn_padFrames (d : Nat) (key : String) (fs : List Frame) :
    findIn key (padFrames d fs) = findIn key fs := by
  induction fs with
  | nil => rfl
  | cons f fs ih =>
    unfold findIn at ih ⊢
    unfold padFrames
    split
    · rfl
    · rw [List.findSome?_cons, List.findSome?_cons, ih]

theorem length_setIn {key : String} {v : Value} {fs gs : List Frame}
    (h : setIn key v fs = some gs) : gs.length = fs.length := by
  simpa using congrArg List.length (types_setIn h)

theorem setIn_padFrames (d : Nat) (key : String) (v : Value) (fs : List Frame) :
    setIn key v (padFrames d fs) = (setIn key v fs).map (padFrames d) := by
  induction fs with
  | nil => rfl
  | cons f fs ih =>
    by_cases h : fs.length < d
    · have hempty : ∀ gs, setIn key v (.empty :: gs) = (setIn key v gs).map (.empty :: ·) :=
        fun _ => rfl
      have hpadded : padFrames d (f :: fs) = .empty :: f :: fs := padFrames_of_le h
      rw [hpadded, hempty]
      cases hset : setIn key v (f :: fs) with
      | none => rfl
      | some gs =>
        rw [Option.map_some, Option.map_some, padFrames_of_le (by rw [length_setIn hset]; exact h)]
    · rw [padFrames_cons (Nat.not_lt.mp h)]
      simp only [setIn]
      cases f.find? key with
      | some var => exact congrArg some (padFrames_cons (Nat.not_lt.mp h)).symm
      | none =>
        simp only [ih, Option.map_map]
        cases hset : setIn key v fs with
        | none => rfl
        | some gs =>
          have hlength : d ≤ gs.length := by
            rw [length_setIn hset]
            exact Nat.not_lt.mp h
          exact congrArg some (padFrames_cons hlength).symm

theorem get?_pad (d : Nat) (s : Space) (name : String) : (s.pad d).get? name = s.get? name := by
  have hfind := findIn_padFrames d (Text.lower name) s.outer
  unfold findIn at hfind
  simp only [get?, findIn, pad, frames, List.findSome?_cons, hfind]

/-- An empty frame is not noticed. -/
theorem pad_transparent (d : Nat) : Transparent (pad d) where
  value? s name := by rw [value?, get?_pad, value?]
  declare? s name type v := by
    have hcontains : (s.pad d).contains name = s.contains name := by
      rw [contains, get?_pad, contains]
    rw [declare?, declare?, hcontains]
    by_cases hvisible : s.contains name = true
    · rw [if_pos hvisible, if_pos hvisible]
      rfl
    · rw [if_neg hvisible, if_neg hvisible]
      rfl
  set? s name v := by
    simp only [set?, frames, pad, setIn, setIn_padFrames]
    cases s.inner.find? (Text.lower name) with
    | some var => rfl
    | none => cases setIn (Text.lower name) v s.outer <;> rfl
  snapshot s := by
    have hall : ∀ fs : List Frame, (padFrames d fs).foldr (fun f all => all.override f) .empty =
        fs.foldr (fun f all => all.override f) (.empty : Frame) := by
      intro fs
      induction fs with
      | nil => rfl
      | cons f fs ih =>
        unfold padFrames
        split
        · rfl
        · rw [List.foldr_cons, List.foldr_cons, ih]
    simp only [snapshot, frames, pad, List.foldr_cons, hall]

theorem push_pad (h : d ≤ s.outer.length) : (s.pad d).push = s.push.pad d := by
  simp only [push, pad, frames, padFrames_cons h]

theorem pop_pad (h : d < s.outer.length) : (s.pad d).pop = s.pop.pad d := by
  obtain ⟨inner, outer⟩ := s
  cases outer with
  | nil => cases h
  | cons f fs => simp only [pop, pad, padFrames_cons (Nat.le_of_lt_succ h)]

/-- With no other frame below, the empty frame is what is left of a block. -/
theorem pop_pad_length (h : s.outer ≠ []) : (s.pad s.outer.length).pop = s.pop.push := by
  obtain ⟨inner, outer⟩ := s
  cases outer with
  | nil => exact absurd rfl h
  | cons f fs => simp only [pop, pad, push, frames, padFrames_of_le (Nat.le_refl _)]

end Space

namespace Entry

variable {limit d : Nat} {e : Entry} {m inside : Machine}

theorem open?_pad (e : Entry) (h : d ≤ m.vars.outer.length) :
    e.open? (m.mapVars (.pad d)) = (e.open? m).map (.mapVars (.pad d)) := by
  unfold open?
  cases e.binding with
  | none => exact congrArg some (congrArg (fun vars => { m with vars }) (Space.push_pad h))
  | some b =>
    simp only [Machine.vars_mapVars, Space.push_pad h, (Space.pad_transparent d).declare?]
    cases m.vars.push.declare? b.1 b.2.1 b.2.2 <;> rfl

/-- A block does not notice an empty frame around it, if its statements do not. -/
theorem run_pad
    (hbody : ∀ m : Machine, d ≤ m.vars.outer.length →
      Statement.runAll limit e.body (m.mapVars (.pad d)) =
        (Statement.runAll limit e.body m).map (Ending.mapVars (.pad d)))
    (h : d ≤ m.vars.outer.length) :
    e.run limit (m.mapVars (.pad d)) = (e.run limit m).map (Ending.mapVars (.pad d)) := by
  unfold run
  rw [open?_pad e h]
  cases hopen : e.open? m with
  | none => rfl
  | some inside =>
    have hinside : inside.vars.outer.length = m.vars.outer.length + 1 := by
      simpa [Space.types, Space.frames] using congrArg List.length (outer_of_open? hopen)
    simp only [Option.map_some]
    rw [hbody inside (by omega)]
    cases hrun : Statement.runAll limit e.body inside with
    | none => rfl
    | some ending =>
      have hafter : ending.2.vars.outer.length = inside.vars.outer.length := by
        simpa using congrArg List.length (Statement.runAll_outer limit e.body inside ending hrun)
      have hpop := Space.pop_pad (d := d) (s := ending.2.vars) (by omega)
      exact congrArg (fun vars => some (ending.1, { ending.2 with vars })) hpop

end Entry

namespace Statement

variable {limit d : Nat} {m : Machine}

/-- However many turns a statement takes, it does not notice an empty frame, if its blocks do
not. -/
theorem turns_pad {s : Statement}
    (hblocks : ∀ body ∈ s.blocks, ∀ m : Machine, d ≤ m.vars.outer.length →
      runAll limit body (m.mapVars (.pad d)) =
        (runAll limit body m).map (Ending.mapVars (.pad d)))
    (n : Nat) (stage : Stage) (h : d ≤ m.vars.outer.length) :
    s.turns limit n stage (m.mapVars (.pad d)) =
      (s.turns limit n stage m).map (Ending.mapVars (.pad d)) := by
  induction n generalizing stage m with
  | zero => rfl
  | succ n ih =>
    have hvars := vars_turn s stage m
    simp only [turns]
    rw [turn_mapVars (Space.pad_transparent d).value?]
    cases hturn : s.turn stage m with
    | ended ending => rfl
    | block e stage' m' =>
      rw [hturn] at hvars
      obtain ⟨hbody, -⟩ := turn_block hturn
      have hm' : d ≤ m'.vars.outer.length := by
        rwa [show m'.vars = m.vars from hvars]
      simp only [Turn.mapVars]
      rw [Entry.run_pad (hblocks _ hbody) hm']
      cases hrun : e.run limit m' with
      | none => rfl
      | some ending =>
        obtain ⟨signal, m''⟩ := ending
        have hm'' : d ≤ m''.vars.outer.length := by
          have hkept := congrArg List.length (entry_types hrun).outer
          simp only [List.length_map] at hkept
          rwa [hkept]
        simp only [Option.map_some, Ending.mapVars]
        cases s.afterBlock signal with
        | next => exact ih stage' hm''
        | stop => rfl
        | pass => rfl

theorem run_pad_of_blocks {s : Statement}
    (hblocks : ∀ body ∈ s.blocks, ∀ m : Machine, d ≤ m.vars.outer.length →
      runAll limit body (m.mapVars (.pad d)) =
        (runAll limit body m).map (Ending.mapVars (.pad d)))
    (h : d ≤ m.vars.outer.length) :
    s.run limit (m.mapVars (.pad d)) = (s.run limit m).map (Ending.mapVars (.pad d)) := by
  rw [run_eq, run_eq, start_mapVars (Space.pad_transparent d)]
  cases hstart : s.start m with
  | ended ending => rfl
  | turns stage m' =>
    refine turns_pad hblocks _ stage ?_
    rwa [vars_of_start hstart]

/-- **An empty frame around a sequence is not noticed**, however the sequence ends. -/
theorem runAll_pad (limit d : Nat) (l : List Statement) :
    ∀ m : Machine, d ≤ m.vars.outer.length →
      runAll limit l (m.mapVars (.pad d)) = (runAll limit l m).map (Ending.mapVars (.pad d)) := by
  induction l using sequence_induction with
  | nil => exact fun _ _ => rfl
  | cons s rest hblocks ih =>
    intro m h
    simp only [runAll]
    rw [run_pad_of_blocks hblocks h]
    cases hrun : s.run limit m with
    | none => rfl
    | some ending =>
      obtain ⟨signal, m'⟩ := ending
      have hm' : d ≤ m'.vars.outer.length := by
        have hkept := congrArg List.length (run_types hrun).outer
        simp only [List.length_map] at hkept
        rwa [hkept]
      cases signal with
      | normal => exact ih m' hm'
      | _ => rfl

/-! ### The two forms of an `if` -/

/-- A block runs the same inside of another that has no variables. -/
theorem runPlain_push (body : List Statement) (m : Machine) :
    (Entry.mk none body).run limit (m.mapVars .push) =
      ((Entry.mk none body).run limit m).map (Ending.mapVars .push) := by
  have hpadded : (m.mapVars .push).mapVars .push =
      (m.mapVars .push).mapVars (.pad m.vars.push.outer.length) := by
    have hpad := Space.padFrames_of_le (Nat.le_refl m.vars.push.outer.length)
    simp only [Machine.mapVars, Space.push, Space.pad, Space.frames] at hpad ⊢
    rw [hpad]
  have hinside := runAll_pad limit m.vars.push.outer.length body (m.mapVars .push) (Nat.le_refl _)
  rw [← hpadded] at hinside
  show (runAll limit body ((m.mapVars .push).mapVars .push)).map _ =
    ((runAll limit body (m.mapVars .push)).map _).map _
  rw [hinside]
  cases hrun : runAll limit body (m.mapVars .push) with
  | none => rfl
  | some ending =>
    have houter : ending.2.vars.outer.length = m.vars.push.outer.length := by
      simpa using congrArg List.length (runAll_outer limit body _ ending hrun)
    have hpop : (ending.2.vars.pad m.vars.push.outer.length).pop = ending.2.vars.pop.push := by
      rw [← houter]
      refine Space.pop_pad_length ?_
      intro hnil
      rw [hnil] at houter
      cases houter
    exact congrArg (fun vars => some (ending.1, { ending.2 with vars })) hpop

theorem run_ifChain (line : Nat) (arms : List Section) (otherwise : Option (List Statement))
    (m : Machine) :
    (ifChain line arms otherwise).run limit m = Turn.run limit (armTurn otherwise arms m) := by
  rw [run_eq]
  exact turns_choice line arms otherwise m

/-- A chain of arms declares nothing in the block that it stands in. -/
theorem run_ifChain_push (line : Nat) (arms : List Section) (otherwise : Option (List Statement))
    (m : Machine) :
    (ifChain line arms otherwise).run limit (m.mapVars .push) =
      ((ifChain line arms otherwise).run limit m).map (Ending.mapVars .push) := by
  have hshows : Space.ShowsSame .push := fun _ _ => rfl
  rw [run_ifChain, run_ifChain, armTurn_mapVars hshows]
  have hchooses := chooses_armTurn otherwise arms m
  cases hturn : armTurn otherwise arms m with
  | ended ending => rfl
  | block e stage m' =>
    rw [hturn] at hchooses
    obtain ⟨hbinding, -, -⟩ := hchooses.block
    obtain ⟨binding, body⟩ := e
    cases hbinding
    exact runPlain_push body m'

theorem runAll_singleton (limit : Nat) (s : Statement) (m : Machine) :
    runAll limit [s] m = s.run limit m := by
  simp only [runAll]
  rcases s.run limit m with _ | ⟨signal, m'⟩
  · rfl
  · cases signal <;> rfl

/-- The arms one inside of the other, each with the line of its own condition. -/
def nested (line : Nat) : List Section → Option (List Statement) → Statement
  | [], otherwise => ifChain line [] otherwise
  | [arm], otherwise => ifChain line [arm] otherwise
  | arm :: next :: rest, otherwise =>
    ifChain line [arm] (some [nested next.line (next :: rest) otherwise])

/-- What an `if` does in its `else` is all that counts there. -/
theorem run_ifChain_else {s s' : Statement} (h : ∀ m, s.run limit m = s'.run limit m)
    (line : Nat) (arms : List Section) (m : Machine) :
    (ifChain line arms (some [s])).run limit m = (ifChain line arms (some [s'])).run limit m := by
  have hall : runAll limit [s] = runAll limit [s'] := by
    funext m
    rw [runAll_singleton, runAll_singleton, h]
  simp only [run, hall]

/-- The other arms can stand in the `else` of the first. -/
theorem run_ifChain_cons (line line' : Nat) (arm : Section) (rest : List Section)
    (otherwise : Option (List Statement)) (m : Machine) :
    (ifChain line (arm :: rest) otherwise).run limit m =
      (ifChain line [arm] (some [ifChain line' rest otherwise])).run limit m := by
  obtain ⟨guard, test, body⟩ := arm
  rw [run_ifChain, run_ifChain]
  simp only [armTurn]
  cases m.condition guard test with
  | error ending => rfl
  | ok r =>
    obtain ⟨b, m'⟩ := r
    cases b with
    | true => rfl
    | false =>
      show _ = (runAll limit [ifChain line' rest otherwise] (m'.mapVars .push)).map _
      rw [runAll_singleton, run_ifChain_push, run_ifChain]
      cases Turn.run limit (armTurn otherwise rest m') <;> rfl

theorem returnsAll_singleton (s : Statement) : returnsAll [s] = s.returns := by
  cases s with
  | breakOut => rfl
  | continueOn => rfl
  | _ => exact Bool.or_false _

theorem returns_ifChain_some (line : Nat) (arms : List Section) (body : List Statement) :
    (ifChain line arms (some body)).returns = (returnsAll body && sectionsReturn arms) := rfl

theorem returns_ifChain_cons (line line' : Nat) (arm : Section) (rest : List Section)
    (otherwise : Option (List Statement)) :
    (ifChain line (arm :: rest) otherwise).returns =
      (ifChain line [arm] (some [ifChain line' rest otherwise])).returns := by
  obtain ⟨guard, test, body⟩ := arm
  rw [returns_ifChain_some, returnsAll_singleton]
  cases otherwise with
  | none => rfl
  | some other =>
    rw [returns_ifChain_some, returns_ifChain_some]
    simp only [sectionsReturn, Bool.and_true, Bool.and_assoc]
    rw [Bool.and_comm (sectionsReturn rest)]

theorem run_nested (line : Nat) (arms : List Section) (otherwise : Option (List Statement))
    (m : Machine) :
    (nested line arms otherwise).run limit m = (ifChain line arms otherwise).run limit m := by
  induction arms generalizing line m with
  | nil => rfl
  | cons arm rest ih =>
    cases rest with
    | nil => rfl
    | cons next rest =>
      rw [run_ifChain_cons line next.line]
      exact run_ifChain_else (ih next.line) line [arm] m

theorem returns_nested (line : Nat) (arms : List Section) (otherwise : Option (List Statement)) :
    (nested line arms otherwise).returns = (ifChain line arms otherwise).returns := by
  induction arms generalizing line with
  | nil => rfl
  | cons arm rest ih =>
    cases rest with
    | nil => rfl
    | cons next rest =>
      rw [returns_ifChain_cons line next.line, nested, returns_ifChain_some, returns_ifChain_some,
        returnsAll_singleton, returnsAll_singleton, ih next.line]

/-- **A chain of arms is nested statements.** An `if` with several arms does what an `if` with the
first arm does that has in its `else` an `if` with the others: it ends in the same way, an error and
its line included, with the same variables, heap and waiting blocks. The compiler's test for a
`return` on every path says the same of both. So the chain is also the same as the statement with
one arm on each level. -/
theorem chain_eq_nested (line line' : Nat) (arm : Section) (rest : List Section)
    (otherwise : Option (List Statement)) :
    (∀ limit m, (ifChain line (arm :: rest) otherwise).run limit m =
      (ifChain line [arm] (some [ifChain line' rest otherwise])).run limit m) ∧
    (ifChain line (arm :: rest) otherwise).returns =
      (ifChain line [arm] (some [ifChain line' rest otherwise])).returns ∧
    (∀ limit m, (ifChain line (arm :: rest) otherwise).run limit m =
      (nested line (arm :: rest) otherwise).run limit m) ∧
    (ifChain line (arm :: rest) otherwise).returns =
      (nested line (arm :: rest) otherwise).returns := by
  refine ⟨?_, returns_ifChain_cons line line' arm rest otherwise, ?_,
    (returns_nested line (arm :: rest) otherwise).symm⟩
  · intro limit m
    exact run_ifChain_cons line line' arm rest otherwise m
  · intro limit m
    exact (run_nested line (arm :: rest) otherwise m).symm

end Statement

end WorldScript
