import WorldScript.Library.Standard
import WorldScript.Program.Run
import WorldScript.Proofs.Run.Invariant

/-! # The points of a program

A program visits the points of the runs of its body, and those of the runs of the blocks that it
delays. A delayed block has the variables of the moment at which it was delayed; when it runs, and
in which world, is not known, so every world is taken into account.

* `Program.Visits`: the points that a program visits.
* `Program.start_agrees`: accepted arguments give variables that agree with the parameters.
* `Program.Visits.good`: at every visited point the scope of the statements that are left agrees
  with the variables, and these statements are what the compiler made of a tail of the source. -/

namespace WorldScript

open Space (Agrees)

/-! ### The slot for the answer -/

/-- The type of the slot for the answer, if there is to be one. -/
def Program.slot (p : Program) : Option Ty := if p.returns.isVoid then none else some p.returns

/-! ### Arguments -/

namespace Definition

variable {scope scope' : Scope} {name : String} {type : Ty} {parameters : List (String × Ty)}

theorem parameterFault?_eq_none (h : parameterFault? scope name type = none) :
    Name.isReserved name = false ∧ scope.lookup name = none ∧ type.isVoid = false := by
  unfold parameterFault? at h
  split at h
  · cases h
  · split at h
    · cases h
    · split at h
      · cases h
      · split at h
        · cases h
        · rename_i hreserved hdeclared hvoid
          refine ⟨by simpa using hreserved, ?_, by simpa using hvoid⟩
          simpa [Scope.declares] using hdeclared

theorem addParameters_cons (h : addParameters scope ((name, type) :: parameters) = .ok scope') :
    parameterFault? scope name type = none ∧
      addParameters (scope.add name type) parameters = .ok scope' := by
  simp only [addParameters] at h
  split at h
  · exact absurd h failAt_ne_ok
  · rename_i hfault
    exact ⟨hfault, h⟩

end Definition

namespace Program

/-- The names of parameters, as a program keeps them. -/
def lowered (parameters : List (String × Ty)) : List (String × Ty) :=
  parameters.map fun (name, type) => (Text.lower name, type)

theorem bindAll_cons {program name : String} {h : Heap} {type : Ty} {v : Value}
    {rest : List ((String × Ty) × Value)} {vars vars' : Space}
    (hbind : bindAll program h (((name, type), v) :: rest) vars = .ok vars') :
    type.mismatch? h v = .ok none ∧
      bindAll program h rest ((vars.declare? name type v).getD vars) = .ok vars' := by
  simp only [bindAll] at hbind
  split at hbind
  · cases hbind
  · cases hbind
  · rename_i hmismatch
    exact ⟨hmismatch, hbind⟩

/-- Each parameter becomes a variable; none of them is there already. -/
theorem bindAll_agrees {program : String} {h : Heap} {parameters : List (String × Ty)}
    {arguments : List Value} {scope scope' : Scope} {vars vars' : Space}
    (hlength : arguments.length = parameters.length)
    (hscope : Definition.addParameters scope parameters = .ok scope')
    (hbind : bindAll program h ((lowered parameters).zip arguments) vars = .ok vars')
    (hagrees : Agrees none scope vars) : Agrees none scope' vars' := by
  induction parameters generalizing arguments scope vars with
  | nil =>
    cases hscope
    cases hbind
    exact hagrees
  | cons parameter rest ih =>
    obtain ⟨name, type⟩ := parameter
    cases arguments with
    | nil => cases hlength
    | cons v more =>
      obtain ⟨hfault, hscope⟩ := Definition.addParameters_cons hscope
      obtain ⟨hreserved, hfresh, -⟩ := Definition.parameterFault?_eq_none hfault
      obtain ⟨-, hbind⟩ := bindAll_cons hbind
      have hslot := Name.ne_slot_of_isReserved hreserved
      have hnone : vars.get? (Text.lower name) = none := by
        rw [Space.get?_lower]
        exact hagrees.get?_eq_none hfresh hslot
      have hdeclare := Space.declare?_of_get? hnone type v
      rw [hdeclare, Option.getD_some] at hbind
      have hagrees' := hagrees.declare hdeclare (by rwa [Text.lower_lower])
      rw [Scope.add_lower] at hagrees'
      exact ih (by simpa using hlength) hscope hbind hagrees'

end Program

/-- The slot becomes a variable that the scope does not see. -/
theorem Space.Agrees.declareSlot {scope : Scope} {vars vars' : Space} {type : Ty} {v : Value}
    (h : Agrees none scope vars) (hdeclare : vars.declare? Name.returnSlot type v = some vars') :
    Agrees (some type) scope vars' := by
  refine ⟨h.hidden, ?_⟩
  intro name
  rw [type?, get?_declare? hdeclare, lower_returnSlot]
  by_cases heq : Text.lower name = Name.returnSlot
  · rw [if_pos heq, if_pos heq]
    rfl
  · rw [if_neg heq, if_neg heq, ← type?, h.types name, if_neg heq]

namespace Program

variable {p : Program} {arguments : List Value}

theorem bindArguments_eq_ok {h h' : Heap} {vars : Space}
    (hbind : p.bindArguments arguments h = .ok (vars, h')) :
    arguments.length = p.parameters.length ∧
      ∃ bound, bindAll p.name h (p.parameters.zip arguments) .empty = .ok bound ∧
        ((p.returns.isVoid = true ∧ vars = bound ∧ h' = h) ∨
          (p.returns.isVoid = false ∧ h' = (h.initial p.returns).2 ∧
            vars =
              (bound.declare? Name.returnSlot p.returns (h.initial p.returns).1).getD bound)) := by
  unfold bindArguments at hbind
  split at hbind
  · cases hbind
  · rename_i hlength
    simp only [bind_eq_ok_iff] at hbind
    obtain ⟨bound, hbound, hbind⟩ := hbind
    refine ⟨by simpa using hlength, bound, hbound, ?_⟩
    split at hbind
    · rename_i hvoid
      cases hbind
      exact Or.inl ⟨hvoid, rfl, rfl⟩
    · rename_i hvoid
      cases hbind
      exact Or.inr ⟨by simpa using hvoid, rfl, rfl⟩

theorem start_eq_ok {queue : Option (Queue DelayedBlock)} {w : World} {m : Machine}
    (h : p.start arguments queue w = .ok m) :
    ∃ vars heap, p.bindArguments arguments w.heap = .ok (vars, heap) ∧
      m = ⟨{ w with heap }, vars, queue, p.name⟩ := by
  simp only [start, bind_eq_ok_iff, pure_eq_ok_iff] at h
  obtain ⟨⟨vars, heap⟩, hbind, rfl⟩ := h
  exact ⟨vars, heap, hbind, rfl⟩

/-- A run with an answer: its body came to an end without an error, and the answer is what was in
the slot then. -/
theorem run_eq_some {limit : Nat} {queue : Option (Queue DelayedBlock)} {w : World}
    {outcome : Outcome} {v : Value} (h : p.run limit arguments queue w = some outcome)
    (hv : outcome.answer = .ok v) :
    ∃ m signal m', p.start arguments queue w = .ok m ∧
      Statement.runAll limit p.body m = some (signal, m') ∧ (∀ e, signal ≠ .failed e) ∧
      v = (m'.vars.value? Name.returnSlot).getD .null ∧ outcome.world = m'.world := by
  unfold run at h
  split at h
  · cases h
    cases hv
  · rename_i m hstart
    simp only [Option.map_eq_some_iff] at h
    obtain ⟨⟨signal, m'⟩, hrun, rfl⟩ := h
    refine ⟨m, signal, m', hstart, hrun, ?_⟩
    have hanswer : answerOf signal m'.vars = .ok v := hv
    unfold answerOf at hanswer
    split at hanswer
    · cases hanswer
    · rename_i hother
      cases hanswer
      exact ⟨hother, rfl, rfl⟩

theorem agrees_empty : Agrees none .empty .empty := ⟨rfl, fun name => by split <;> rfl⟩

/-- Accepted arguments give variables that agree with the parameters, and a slot for the answer if
there is to be one. -/
theorem start_agrees {library : Library} {settings : Settings} {d : Definition} {scope : Scope}
    (hp : d.Compiled library settings p scope) {queue : Option (Queue DelayedBlock)} {w : World}
    {m : Machine} (h : p.start arguments queue w = .ok m) : Agrees p.slot scope m.vars := by
  obtain ⟨vars, heap, hbind, rfl⟩ := start_eq_ok h
  obtain ⟨hlength, bound, hbound, hslot⟩ := bindArguments_eq_ok hbind
  rw [hp.parameters] at hlength hbound
  have hagrees : Agrees none scope bound :=
    bindAll_agrees (by simpa using hlength) hp.declared hbound agrees_empty
  rcases hslot with ⟨hvoid, rfl, -⟩ | ⟨hvoid, -, hvars⟩
  · rw [slot, if_pos hvoid]
    exact hagrees
  · have hnone : bound.get? Name.returnSlot = none := by
      rw [Space.get?_eq_none_iff, hagrees.types, if_pos Space.lower_returnSlot]
    have hdeclare := Space.declare?_of_get? hnone p.returns (w.heap.initial p.returns).1
    rw [hdeclare, Option.getD_some] at hvars
    rw [slot, if_neg (by rw [hvoid]; decide)]
    subst hvars
    exact hagrees.declareSlot hdeclare

/-- At the end of a run of the body, the slot for the answer is there if there is to be one. -/
theorem slot_of_runAll {library : Library} {settings : Settings} {d : Definition} {scope : Scope}
    (hp : d.Compiled library settings p scope) {queue : Option (Queue DelayedBlock)} {w : World}
    {m m' : Machine} {limit : Nat} {signal : Signal} (hstart : p.start arguments queue w = .ok m)
    (hrun : Statement.runAll limit p.body m = some (signal, m')) :
    m'.vars.type? Name.returnSlot = p.slot := by
  have hplaced := hp.produced.mono fun _ _ h => h.wellPlaced
  obtain ⟨scope', hagrees⟩ := agrees_end hplaced (start_agrees hp hstart) hrun
  rw [hagrees.types, if_pos Space.lower_returnSlot]

/-- The points that a program visits, where its body stands at the given place. -/
inductive Visits (p : Program) (place : Place) : Point → Prop
  /-- A run begins. -/
  | start {arguments : List Value} {queue : Option (Queue DelayedBlock)} {w : World} {m : Machine} :
    p.start arguments queue w = .ok m → Visits p place ⟨place, p.body, m⟩
  | follow {limit : Nat} {Q R : Point} : Visits p place Q → Q.Follows limit R → Visits p place R
  /-- A block that was delayed begins, at some time, in some world. -/
  | fire {q : Place} {line : Nat} {duration : Checked} {body rest : List Statement} {m : Machine}
    (queue : Queue DelayedBlock) (w : World) :
    Visits p place ⟨q, .delay line duration body :: rest, m⟩ →
    Visits p place ⟨q.inside (.delay line duration body), body, (m.suspend body).start queue w⟩

theorem Visits.leads {place : Place} {limit : Nat} {Q R : Point} (hQ : p.Visits place Q)
    (h : Point.Leads limit Q R) : p.Visits place R := by
  induction h with
  | refl => exact hQ
  | tail _ hstep ih => exact .follow ih hstep

end Program

/-- What is known about the statements of a compiled program, besides where they come from. -/
def Compiled (lines : List Line) (slot : Option Ty) (q : Place) (s : Statement) : Prop :=
  Produced lines q s ∧ q.Serves slot

theorem Definition.Compiled.everywhere {library : Library} {settings : Settings} {d : Definition}
    {p : Program} {scope : Scope} (hp : d.Compiled library settings p scope) :
    Everywhere (WorldScript.Compiled (Source.lines d.source) p.slot)
      ⟨d.context library settings, scope⟩ p.body := by
  refine hp.produced.and (everywhere_of_place (fun s h => h.after s) (fun s h => h.inside s) ?_ _)
  intro (hvoid : d.returns.isVoid = false)
  rw [Program.slot, hp.returns, if_neg (by rw [hvoid]; decide)]
  rfl

/-- Agreement alone is kept. -/
theorem kept_agreement (lines : List Line) (slot : Option Ty) :
    Kept (Compiled lines slot) slot (fun _ _ => True) (fun _ _ => True) (fun _ => True) where
  placed h := h.1.wellPlaced
  ended _ _ _ _ _ := trivial
  begun _ _ _ _ := ⟨trivial, trivial⟩
  last _ _ _ _ _ := trivial
  block _ _ _ _ _ := ⟨trivial, trivial, fun _ _ => trivial⟩
  pop _ := trivial

/-- At every visited point the scope of the statements that are left agrees with the variables. -/
theorem Program.Visits.good {library : Library} {settings : Settings} {d : Definition}
    {p : Program} {scope : Scope} (hp : d.Compiled library settings p scope) {Q : Point}
    (h : p.Visits ⟨d.context library settings, scope⟩ Q) :
    Kept.Good (Compiled (Source.lines d.source) p.slot) p.slot (fun _ => True) Q := by
  induction h with
  | start hstart => exact ⟨hp.everywhere, start_agrees hp hstart, trivial⟩
  | follow _ hstep ih => exact (kept_agreement _ _).follows ih (fun _ _ _ _ _ => trivial) hstep
  | fire queue w _ ih =>
    exact ⟨ih.everywhere.block (List.mem_singleton_self _), ih.agrees.snapshot, trivial⟩

/-! ### Programs that begin -/

/-- The program and its first state, if it is compiled and takes the arguments. -/
def Definition.started? (d : Definition) (arguments : List Value) (w : World) :
    Option (Program × Machine) :=
  match d.compile .standard {} with
  | .error _ => none
  | .ok p =>
    match p.start arguments none w with
    | .error _ => none
    | .ok m => some (p, m)

theorem Definition.started?_eq_some {d : Definition} {arguments : List Value} {w : World}
    {p : Program} {m : Machine} (h : d.started? arguments w = some (p, m)) :
    d.compile .standard {} = .ok p ∧ p.start arguments none w = .ok m := by
  unfold started? at h
  split at h
  · cases h
  · rename_i hp
    split at h
    · cases h
    · rename_i hm
      cases h
      exact ⟨hp, hm⟩

/-- A world with one sequence, of one text. -/
def World.oneList : World := ⟨(Heap.empty.newList [.text "a"]).2, []⟩

end WorldScript
