import WorldScript.Proofs.Program.Visits
import WorldScript.Proofs.Run.Signals

/-! # What programs return

A program that is to return something has a slot for it, in the outermost frame. The slot gets a
value from a `return` that runs, and from nothing else. So the answer of a run is the value of the
`return` that ended it, and if none did, it is the value with which the slot began.

* `Statement.runAll_slot`: what a sequence does to the slot.
* `Program.answer_returned_or_left`: the two answers of a program whose paths all count as
  returning. -/

namespace WorldScript

open Space (Agrees)

/-- The statements at the place are to return a value, and are not delayed. -/
def Place.ReturnsValue (p : Place) : Prop :=
  p.context.returns.isVoid = false ∧ p.context.inDelay = false

/-- The slot has the value that it had. -/
def Machine.KeepsSlot (m : Machine) (ending : Ending) : Prop :=
  ending.2.vars.get? Name.returnSlot = m.vars.get? Name.returnSlot

/-- On the way from the point a `return` ran, and the slot has the value of its expression. -/
def Returned (limit : Nat) (P : Point) (m' : Machine) : Prop :=
  ∃ q line e rest m₁ v m₂, P.Leads limit ⟨q, .returnWith line (some e) :: rest, m₁⟩ ∧
    m₁.eval e = (.ok v, m₂) ∧ m'.vars.value? Name.returnSlot = some v

/-- The slot after a run from the point. -/
def SlotAfter (limit : Nat) (P : Point) (ending : Ending) : Prop :=
  (ending.1 ≠ .returned → P.machine.KeepsSlot ending) ∧
    (ending.1 = .returned → Returned limit P ending.2)

variable {slot : Option Ty} {limit : Nat} {p : Place} {s : Statement} {m m' : Machine}

/-! ### Frames without the slot -/

theorem Place.ReturnsValue.inside (h : p.ReturnsValue) {stage : Stage}
    (hstart : s.start m = .turns stage m') : (p.inside s).ReturnsValue := by
  cases s with
  | delay line duration body => cases hstart
  | _ => exact h

theorem lower_ne_slot {name : String} (h : Text.lower name ≠ Name.returnSlot) :
    Text.lower Name.returnSlot ≠ Text.lower name := by
  rw [Space.lower_returnSlot]
  exact h.symm

theorem runsTo_inner {ending : Ending} (hs : s.WellPlaced p) (h : s.RunsTo m ending) :
    Space.typesOf ending.2.vars.inner Name.returnSlot =
      Space.typesOf m.vars.inner Name.returnSlot := by
  unfold Statement.RunsTo at h
  split at h
  · unfold Machine.KeepsTypes at h
    rw [Space.types_eq_cons, Space.types_eq_cons] at h
    rw [(List.cons.inj h).1]
  · rename_i name type hsome
    rcases h with ⟨-, hvars⟩ | ⟨-, v, hdeclare⟩
    · rw [hvars]
    · rw [(Space.types_declare? hdeclare).2]
      exact if_neg (free_of_declared? hs hsome).ne_slot.symm

/-- A sequence does not put a slot into its frame. -/
theorem runAll_inner {l : List Statement} {signal : Signal}
    (hall : Everywhere (fun q t => t.WellPlaced q) p l)
    (h : Statement.runAll limit l m = some (signal, m')) :
    Space.typesOf m'.vars.inner Name.returnSlot = Space.typesOf m.vars.inner Name.returnSlot := by
  induction l generalizing p m with
  | nil =>
    cases h
    rfl
  | cons s rest ih =>
    simp only [Statement.runAll] at h
    split at h
    · cases h
    · rename_i m₁ hrun
      exact (ih hall.tail h).trans (runsTo_inner hall.head (Statement.run_types hrun))
    · rename_i hrun
      cases h
      exact runsTo_inner hall.head (Statement.run_types hrun)

/-- The frame of a block begins without a slot, and the slot can be seen from there. -/
theorem slot_of_open? (hs : s.WellPlaced p) {stage stage' : Stage} {e : Entry} {inside : Machine}
    (hturn : s.turn stage m = .block e stage' m') (hopen : e.open? m' = some inside) :
    Space.typesOf inside.vars.inner Name.returnSlot = none ∧
      inside.vars.get? Name.returnSlot = m'.vars.get? Name.returnSlot := by
  have hbound := (Statement.turn_block hturn).2
  unfold Entry.open? at hopen
  split at hopen
  · cases hopen
    exact ⟨rfl, rfl⟩
  · rename_i name type v hsome
    simp only [Option.map_eq_some_iff] at hopen
    obtain ⟨vars, hdeclare, rfl⟩ := hopen
    rw [hsome] at hbound
    have hne := (free_of_bound? hs hbound.symm).ne_slot
    constructor
    · show Space.typesOf vars.inner Name.returnSlot = none
      rw [(Space.types_declare? hdeclare).2]
      exact if_neg hne.symm
    · show vars.get? Name.returnSlot = _
      rw [Space.get?_declare? hdeclare, if_neg (lower_ne_slot hne)]
      rfl

/-- Leaving a block leaves the slot alone. -/
theorem slot_of_pop (h : Space.typesOf m.vars.inner Name.returnSlot = none) :
    m.vars.pop.get? Name.returnSlot = m.vars.get? Name.returnSlot := by
  refine Space.get?_pop ?_
  rw [Space.lower_returnSlot]
  simpa [Space.typesOf] using h

/-! ### The slot in a run -/

theorem Machine.Sets.keepsSlot {name : String} {ending : Ending} (h : m.Sets name ending)
    (hne : Text.lower name ≠ Name.returnSlot) : m.KeepsSlot ending := by
  rcases h with h | ⟨v, hset⟩
  · exact congrArg (Space.get? · Name.returnSlot) h
  · exact Space.get?_set?_of_ne hset (lower_ne_slot hne)

theorem slotAfter_return {line : Nat} {value : Option Checked} {rest : List Statement}
    (hs : (Statement.returnWith line value).WellPlaced p) (hp : p.ReturnsValue) :
    SlotAfter limit ⟨p, .returnWith line value :: rest, m⟩ (m.returnWith line value) := by
  cases value with
  | none =>
    rcases hs with hvoid | hdelay
    · rw [hp.1] at hvoid
      cases hvoid
    · rw [hp.2] at hdelay
      cases hdelay
  | some e =>
    refine Machine.withValue_cases ?_ ?_
    · intro v m₂ heval
      split
      · rename_i vars hset
        refine ⟨fun hne => absurd rfl hne, fun _ => ?_⟩
        exact ⟨p, line, e, rest, m, v, m₂, .refl, heval, Space.value?_set?_self hset⟩
      · refine ⟨fun _ => ?_, fun hf => by cases hf⟩
        exact congrArg (Space.get? · Name.returnSlot) (Machine.vars_of_eval heval)
    · intro err m₂ heval
      refine ⟨fun _ => ?_, fun hf => by cases hf⟩
      exact congrArg (Space.get? · Name.returnSlot) (Machine.vars_of_eval heval)

theorem slotAfter_of_start {rest : List Statement} {ending : Ending} (hs : s.WellPlaced p)
    (hp : p.ReturnsValue) (h : Agrees slot p.scope m.vars) (hstart : s.start m = .ended ending) :
    SlotAfter limit ⟨p, s :: rest, m⟩ ending := by
  by_cases hreturn : ∃ line value, s = .returnWith line value
  · obtain ⟨line, value, rfl⟩ := hreturn
    cases hstart
    exact slotAfter_return hs hp
  · have hne : ∀ line value, s ≠ .returnWith line value := by
      intro line value heq
      exact hreturn ⟨line, value, heq⟩
    refine ⟨fun _ => ?_, fun hreturned => ?_⟩
    · cases hdeclared : s.declared? with
      | none =>
        rcases Statement.start_sets hstart hdeclared with hvars | ⟨name, htarget, hsets⟩
        · exact congrArg (Space.get? · Name.returnSlot) hvars
        · obtain ⟨type, hlookup⟩ := lookup_of_target? hs htarget hne
          exact hsets.keepsSlot (h.ne_slot hlookup)
      | some declared =>
        have hruns := Statement.runsTo_of_start hstart
        unfold Statement.RunsTo at hruns
        rw [hdeclared] at hruns
        rcases hruns with ⟨-, hvars⟩ | ⟨-, v, hdeclare⟩
        · exact congrArg (Space.get? · Name.returnSlot) hvars
        · show ending.2.vars.get? Name.returnSlot = _
          rw [Space.get?_declare? hdeclare,
            if_neg (lower_ne_slot (free_of_declared? hs hdeclared).ne_slot)]
    · have hsignal := Statement.start_signal hstart
      rw [hreturned] at hsignal
      exact absurd hsignal hreturn

/-- A block leaves the slot alone, unless a `return` in it ends it. -/
theorem slotAfter_entry (hs : s.WellPlaced p)
    (hblocks : ∀ body ∈ s.blocks, Everywhere (fun q t => t.WellPlaced q) (p.inside s) body)
    {stage stage' : Stage} {e : Entry} {m₁ m₂ : Machine} {signal : Signal}
    (hturn : s.turn stage m = .block e stage' m₁)
    (hslot : ∀ inside ending, e.open? m₁ = some inside →
      Statement.runAll limit e.body inside = some ending →
      SlotAfter limit ⟨p.inside s, e.body, inside⟩ ending)
    (hrun : e.run limit m₁ = some (signal, m₂)) :
    (signal ≠ .returned → m₂.vars.get? Name.returnSlot = m.vars.get? Name.returnSlot) ∧
      (signal = .returned → ∃ inside, e.open? m₁ = some inside ∧
        Returned limit ⟨p.inside s, e.body, inside⟩ m₂) := by
  have hvars := Statement.vars_turn s stage m
  rw [hturn] at hvars
  have hvars' : m₁.vars = m.vars := hvars
  unfold Entry.run at hrun
  split at hrun
  · cases hrun
    refine ⟨fun _ => by rw [hvars'], fun hreturned => ?_⟩
    rcases Statement.refuse_plain (m := m) e with h | ⟨err, h⟩
    · rw [show e.refuse = .returned from hreturned] at h
      cases h
    · rw [show e.refuse = .returned from hreturned] at h
      cases h
  · rename_i inside hopen
    simp only [Option.map_eq_some_iff] at hrun
    obtain ⟨⟨signal', m₃⟩, hbody, heq⟩ := hrun
    cases heq
    obtain ⟨hkeeps, hreturns⟩ := hslot inside _ hopen hbody
    obtain ⟨hfree, hsees⟩ := slot_of_open? hs hturn hopen
    have hinner := runAll_inner (hblocks _ (Statement.turn_block hturn).1) hbody
    rw [hfree] at hinner
    have hpop := slot_of_pop hinner
    refine ⟨fun hne => ?_, fun hreturned => ⟨inside, hopen, ?_⟩⟩
    · show m₃.vars.pop.get? Name.returnSlot = _
      rw [hpop, ← hvars', ← hsees]
      exact hkeeps hne
    · obtain ⟨q, line, e', rest, m₄, v, m₅, hleads, heval, hvalue⟩ := hreturns hreturned
      refine ⟨q, line, e', rest, m₄, v, m₅, hleads, heval, ?_⟩
      show m₃.vars.pop.value? Name.returnSlot = some v
      rw [Space.value?, hpop]
      exact hvalue

theorem Returned.of_follows {P Q : Point} (h : P.Follows limit Q) (hQ : Returned limit Q m') :
    Returned limit P m' := by
  obtain ⟨q, line, e, rest, m₁, v, m₂, hleads, hv⟩ := hQ
  exact ⟨q, line, e, rest, m₁, v, m₂, .head h hleads, hv⟩

/-- What holds of a sequence, wherever it stands. -/
def TracksSlot (slot : Option Ty) (limit : Nat) (l : List Statement) : Prop :=
  ∀ p m ending, Everywhere (fun q t => t.WellPlaced q) p l → p.ReturnsValue →
    Agrees slot p.scope m.vars → Statement.runAll limit l m = some ending →
    SlotAfter limit ⟨p, l, m⟩ ending

/-- The turns of a statement, which has come to the given stage and state. -/
theorem slot_of_turns {rest : List Statement}
    (hall : Everywhere (fun q t => t.WellPlaced q) p (s :: rest))
    (hinside : (p.inside s).ReturnsValue) (htracks : ∀ body ∈ s.blocks, TracksSlot slot limit body)
    {n : Nat} {stage : Stage} {m₀ : Machine} {signal : Signal} (h : Agrees slot p.scope m.vars)
    (hcomes : ∀ stage' m'', Statement.TurnAt limit s n stage m stage' m'' →
      s.ComesTo limit m₀ stage' m'')
    (hturns : s.turns limit n stage m = some (signal, m')) :
    (signal ≠ .returned → m'.vars.get? Name.returnSlot = m.vars.get? Name.returnSlot) ∧
      (signal = .returned → Returned limit ⟨p, s :: rest, m₀⟩ m') := by
  induction n generalizing stage m with
  | zero => cases hturns
  | succ n ih =>
    simp only [Statement.turns] at hturns
    split at hturns
    · rename_i ending hturn
      cases hturns
      refine ⟨fun _ => ?_, fun hreturned => ?_⟩
      · have hvars := Statement.vars_turn s stage m
        rw [hturn] at hvars
        exact congrArg (Space.get? · Name.returnSlot) hvars
      · rcases Statement.turn_plainEnd hturn with hplain | ⟨err, hplain⟩
        · rw [show signal = .returned from hreturned] at hplain
          cases hplain
        · rw [show signal = .returned from hreturned] at hplain
          cases hplain
    · rename_i e stage' m₁ hturn
      split at hturns
      · cases hturns
      · rename_i signal' m₂ hrun
        have hbody := (Statement.turn_block hturn).1
        have hentry := slotAfter_entry hall.head (fun _ => hall.block) hturn
          (fun inside ending hopen hbodyRun => htracks _ hbody _ inside ending (hall.block hbody)
            hinside (agrees_inside hall.head h hturn hopen) hbodyRun) hrun
        split at hturns
        · rename_i hafter
          have hne : signal' ≠ .returned := by
            rintro rfl
            rw [Statement.afterBlock_final s Signal.final_returned] at hafter
            cases hafter
          have hnext := ih (agrees_turnAt h (.next hturn hrun hafter (.here (n := 0))))
            (fun stage'' m'' hat => hcomes stage'' m'' (.next hturn hrun hafter hat)) hturns
          rw [hentry.1 hne] at hnext
          exact hnext
        · rename_i hstop
          cases hturns
          have hne : signal' ≠ .returned := by
            rintro rfl
            rw [Statement.afterBlock_final s Signal.final_returned] at hstop
            cases hstop
          exact ⟨fun _ => hentry.1 hne, fun hf => by cases hf⟩
        · cases hturns
          refine ⟨hentry.1, fun hreturned => ?_⟩
          obtain ⟨inside, hopen, hret⟩ := hentry.2 hreturned
          exact .of_follows (.into ⟨stage, stage', m, m₁, hcomes stage m .here, hturn, hopen⟩) hret

theorem slotAfter_of_run {rest : List Statement}
    (hall : Everywhere (fun q t => t.WellPlaced q) p (s :: rest))
    (hp : p.ReturnsValue) (htracks : ∀ body ∈ s.blocks, TracksSlot slot limit body)
    {signal : Signal} (h : Agrees slot p.scope m.vars)
    (hrun : s.run limit m = some (signal, m')) :
    SlotAfter limit ⟨p, s :: rest, m⟩ (signal, m') := by
  rw [Statement.run_eq] at hrun
  cases hstart : s.start m with
  | ended ending =>
    rw [hstart] at hrun
    cases hrun
    exact slotAfter_of_start hall.head hp h hstart
  | turns stage m₀ =>
    rw [hstart] at hrun
    have hvars := Statement.vars_of_start hstart
    have hturns := slot_of_turns hall (hp.inside hstart) htracks (by rw [hvars]; exact h)
      (fun stage' m'' hat => ⟨stage, m₀, hstart, hat⟩) hrun
    rw [hvars] at hturns
    exact hturns

/-- A sequence leaves the slot alone, unless it ends with a `return`, whose value the slot gets. -/
theorem Statement.runAll_slot (slot : Option Ty) (limit : Nat) (l : List Statement) :
    TracksSlot slot limit l := by
  induction l using sequence_induction with
  | nil =>
    intro p m ending _ _ _ h
    cases h
    exact ⟨fun _ => rfl, fun hf => by cases hf⟩
  | cons s rest htracks ih =>
    intro p m ending hall hp h hrun
    simp only [runAll] at hrun
    split at hrun
    · cases hrun
    · rename_i m₁ hfirst
      have hfirstSlot := (slotAfter_of_run hall hp htracks h hfirst).1 (fun hf => by cases hf)
      obtain ⟨hkeeps, hreturned⟩ :=
        ih (p.after s) m₁ ending hall.tail hp (agrees_after hall.head h hfirst) hrun
      exact ⟨fun hne => (hkeeps hne).trans hfirstSlot,
        fun hr => .of_follows (.past hfirst) (hreturned hr)⟩
    · rename_i hfirst
      cases hrun
      exact slotAfter_of_run hall hp htracks h hfirst

/-! ### Answers -/

namespace Program

variable {library : Library} {settings : Settings} {d : Definition} {p : Program} {scope : Scope}
  {arguments : List Value} {queue : Option (Queue DelayedBlock)} {w : World}

/-- The slot begins with the value that goes with what is returned. -/
theorem start_slot (hp : d.Compiled library settings p scope) (hvoid : p.returns.isVoid = false)
    {m : Machine} (h : p.start arguments queue w = .ok m) :
    m.vars.value? Name.returnSlot = some (w.heap.initial p.returns).1 := by
  obtain ⟨vars, heap, hbind, rfl⟩ := start_eq_ok h
  obtain ⟨hlength, bound, hbound, hslot⟩ := bindArguments_eq_ok hbind
  rw [hp.parameters] at hlength hbound
  have hagrees : Agrees none scope bound :=
    bindAll_agrees (by simpa using hlength) hp.declared hbound agrees_empty
  rcases hslot with ⟨hvoid', -⟩ | ⟨-, -, hvars⟩
  · rw [hvoid] at hvoid'
    cases hvoid'
  · have hnone : bound.get? Name.returnSlot = none := by
      rw [Space.get?_eq_none_iff, hagrees.types, if_pos Space.lower_returnSlot]
    have hdeclare := Space.declare?_of_get? hnone p.returns (w.heap.initial p.returns).1
    rw [hdeclare, Option.getD_some] at hvars
    subst hvars
    rw [Space.value?, Space.get?_declare? hdeclare, if_pos rfl]
    rfl

/-- The run of a program whose statements all return comes to an end in one of two ways, if there is
no error: a `return` ran, and the answer is the value of its expression; or none did, the answer is
the value with which the slot began, and a switch that counts as returning was left by a `break`. -/
theorem answer_returned_or_left (h : d.compile library settings = .ok p)
    (hstrict : settings.strictJumps = true) (hvoid : p.returns.isVoid = false) {limit : Nat}
    {outcome : Outcome} {v : Value} (hrun : p.run limit arguments queue w = some outcome)
    (hv : outcome.answer = .ok v) :
    ∃ scope m signal m', Definition.addParameters .empty d.parameters = .ok scope ∧
      p.start arguments queue w = .ok m ∧
      Statement.runAll limit p.body m = some (signal, m') ∧
      ((signal = .returned ∧ ∃ q line e rest m₁ m₂,
          Point.Leads limit ⟨⟨d.context library settings, scope⟩, p.body, m⟩
            ⟨q, .returnWith line (some e) :: rest, m₁⟩ ∧ m₁.eval e = (.ok v, m₂)) ∨
        (signal = .normal ∧ v = (w.heap.initial p.returns).1 ∧
          (∀ q line value rest m₁, ¬ Point.Leads limit
            ⟨⟨d.context library settings, scope⟩, p.body, m⟩
            ⟨q, .returnWith line value :: rest, m₁⟩) ∧
          ∃ q s rest m₁, Point.Leads limit ⟨⟨d.context library settings, scope⟩, p.body, m⟩
            ⟨q, s :: rest, m₁⟩ ∧ s.LeftByBreak limit m₁)) := by
  obtain ⟨scope, hp⟩ := Definition.compiled h
  obtain ⟨m, signal, m', hstart, hbody, hok, hvalue, -⟩ := run_eq_some hrun hv
  refine ⟨scope, m, signal, m', hp.declared, hstart, hbody, ?_⟩
  have hplaced := hp.everywhere.mono fun _ _ h => h.1.wellPlaced
  have hreturns : Place.ReturnsValue ⟨d.context library settings, scope⟩ := by
    refine ⟨?_, rfl⟩
    show d.returns.isVoid = false
    rw [← hp.returns]
    exact hvoid
  obtain ⟨hkeeps, hreturned⟩ :=
    Statement.runAll_slot _ limit p.body _ m _ hplaced hreturns (start_agrees hp hstart) hbody
  have hmeant := Statement.jumps_meant limit p.body _ m signal m' hstrict hplaced hbody
  cases signal with
  | failed e => exact absurd rfl (hok e)
  | broke => rcases hmeant with hf | hf <;> cases hf
  | continued => cases hmeant
  | returned =>
    obtain ⟨q, line, e, rest, m₁, v', m₂, hleads, heval, hslot⟩ := hreturned rfl
    rw [hslot] at hvalue
    cases hvalue
    exact Or.inl ⟨rfl, q, line, e, rest, m₁, m₂, hleads, heval⟩
  | normal =>
    refine Or.inr ⟨rfl, ?_, ?_, ?_⟩
    · have hslot : m'.vars.get? Name.returnSlot = m.vars.get? Name.returnSlot :=
        hkeeps fun hf => by cases hf
      rw [Space.value?, hslot, ← Space.value?, start_slot hp hvoid hstart] at hvalue
      exact hvalue
    · intro q line value rest m₁ hleads
      obtain ⟨signal, m₂, hfinal, hends⟩ := Statement.runAll_returnWith limit line value rest m₁
      obtain ⟨m₃, hall⟩ := Point.runAll_of_leads hleads hfinal hends
      have heq := hbody.symm.trans hall
      cases heq
      exact hfinal
    · exact Statement.exists_leftByBreak limit p.body _ m m' (hp.returnsAll hvoid) hbody

end Program

/-- A program in which a `break` under an `if` leaves a switch whose sections all count as
returning. -/
def Definition.leavesSwitch : Definition where
  name := "leave"
  returns := .text
  parameters := []
  source := "switch (true)\ncase (true)\nif (true)\nbreak\nend if\nreturn 'a'\n" ++
    "default\nreturn 'b'\nend switch"

/-- The outcome of the program, if it is compiled, comes to an end and ends normally. -/
def Definition.normalText? (d : Definition) : Option String :=
  match d.started? [] .empty with
  | none => none
  | some (p, m) =>
    match Statement.runAll 1 p.body m with
    | some (.normal, m') =>
      match m'.vars.value? Name.returnSlot with
      | some (.text t) => some t
      | _ => none
    | _ => none

theorem Definition.leavesSwitch_normalText? : Definition.leavesSwitch.normalText? = some "" := by
  decide +kernel

theorem Definition.normalText?_eq_some {d : Definition} {t : String}
    (h : d.normalText? = some t) :
    ∃ p m m', d.compile .standard {} = .ok p ∧ p.start [] none .empty = .ok m ∧
      Statement.runAll 1 p.body m = some (.normal, m') ∧
      m'.vars.value? Name.returnSlot = some (.text t) := by
  unfold normalText? at h
  split at h
  · cases h
  · rename_i p m hsome
    split at h
    · rename_i m' hrun
      split at h
      · rename_i t' hslot
        cases h
        obtain ⟨hp, hm⟩ := started?_eq_some hsome
        exact ⟨p, m, m', hp, hm, hrun, hslot⟩
      · cases h
    · cases h

theorem Program.answer_returned_or_left_leavesSwitch :
    ∃ p outcome scope m, Definition.leavesSwitch.compile .standard {} = .ok p ∧
      p.returns.isVoid = false ∧ p.run 1 [] none .empty = some outcome ∧
      outcome.answer = .ok (.text "") ∧
      ∃ q s rest m₁,
        Point.Leads 1 ⟨⟨Definition.leavesSwitch.context .standard {}, scope⟩, p.body, m⟩
          ⟨q, s :: rest, m₁⟩ ∧ s.LeftByBreak 1 m₁ := by
  obtain ⟨p, m, m', hp, hstart, hbody, hslot⟩ :=
    Definition.normalText?_eq_some Definition.leavesSwitch_normalText?
  have hvoid : p.returns.isVoid = false := by
    obtain ⟨scope, hcompiled⟩ := Definition.compiled hp
    rw [hcompiled.returns]
    rfl
  have hrun : p.run 1 [] none .empty =
      some ⟨answerOf .normal m'.vars, m'.queue, m'.world⟩ := by
    rw [run, hstart]
    dsimp only
    rw [hbody]
    rfl
  have hanswer : answerOf .normal m'.vars = .ok (.text "") := by
    show Except.ok ((m'.vars.value? Name.returnSlot).getD .null) = _
    rw [hslot]
    rfl
  obtain ⟨scope, m₁, signal, m₂, -, hstart', hbody', hcase⟩ :=
    answer_returned_or_left hp rfl hvoid hrun hanswer
  rw [hstart] at hstart'
  cases hstart'
  rw [hbody] at hbody'
  cases hbody'
  rcases hcase with ⟨hreturned, -⟩ | ⟨-, -, -, hleft⟩
  · cases hreturned
  · exact ⟨p, _, scope, m, hp, hvoid, hrun, hanswer, hleft⟩

end WorldScript
