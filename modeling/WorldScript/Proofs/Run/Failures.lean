import WorldScript.Proofs.Expr.Effects
import WorldScript.Proofs.Run.Local

/-! # A statement that fails changes nothing

A statement that runs no block evaluates its expressions first, then looks at its variable, and
makes its change in the last step. So when it fails, at whatever point, the variables, the cells and
the queue are as they were; all that can be left behind are new cells that nothing leads to. The
functions that it calls must not change anything either, as is the case with those of the standard
library. The error names the line of the statement.

* `Machine.Unchanged`: all that was there is as it was.
* `Machine.FailsCleanly`: the rules for one way to go on after another.
* `Statement.failed_leaf_unchanged`: the statement for all sorts of statements without blocks. -/

namespace WorldScript

namespace Machine

/-- The variables, the queue and the notes are as they were, and so is what the cells hold that were
there. -/
structure Unchanged (m m' : Machine) : Prop where
  vars : m'.vars = m.vars
  world : m.world.Extends m'.world
  queue : m'.queue = m.queue
  program : m'.program = m.program

/-- If the end is a failure, then nothing has changed, and the error is one of the line. -/
def FailsCleanly (m : Machine) (line : Nat) (ending : Ending) : Prop :=
  ∀ err, ending.1 = .failed err → m.Unchanged ending.2 ∧ ∃ fault, err = .atLine line fault

variable {m m₁ m₂ : Machine} {line : Nat} {name : String} {e : Checked}

theorem Unchanged.trans (h₁ : m.Unchanged m₁) (h₂ : m₁.Unchanged m₂) : m.Unchanged m₂ :=
  ⟨h₂.vars.trans h₁.vars, World.extends_passage.trans h₁.world h₂.world, h₂.queue.trans h₁.queue,
    h₂.program.trans h₁.program⟩

section Passages

variable {R : World → World → Prop} {P : Function → Prop} (hR : World.Passage R)
  (hP : ∀ f, P f → ∀ args w, R w (f.run args w).2)

include hR hP

theorem passes_of_eval (he : e.CallsOnly P) {r : Except EvalError Value} (h : m.eval e = (r, m₁)) :
    m₁ = { m with world := m₁.world } ∧ R m.world m₁.world := by
  have heval : R m.world (m.eval e).2.world := Checked.eval_passes hR hP e he
  have hrest : (m.eval e).2 = { m with world := (m.eval e).2.world } := rfl
  rw [h] at heval hrest
  exact ⟨hrest, heval⟩

theorem passes_of_values {es : List Checked} (hes : ∀ e ∈ es, e.CallsOnly P)
    {r : Except EvalError (List Value)} (h : m.values es = (r, m₁)) :
    m₁ = { m with world := m₁.world } ∧ R m.world m₁.world := by
  induction es generalizing m r with
  | nil =>
    cases h
    exact ⟨rfl, hR.refl _⟩
  | cons e es ih =>
    rw [List.forall_mem_cons] at hes
    simp only [values] at h
    split at h
    · rename_i heval
      cases h
      exact passes_of_eval hR hP hes.1 heval
    · rename_i v m' heval
      obtain ⟨hfirst, hworld⟩ := passes_of_eval hR hP hes.1 heval
      split at h
      all_goals
        rename_i hmore
        cases h
        obtain ⟨hrest, hworld'⟩ := ih hes.2 hmore
        rw [hfirst] at hrest
        exact ⟨hrest, hR.trans hworld hworld'⟩

end Passages

theorem unchanged_of_world (h : m₁ = { m with world := m₁.world } ∧ m.world.Extends m₁.world) :
    m.Unchanged m₁ := by
  obtain ⟨hrest, hworld⟩ := h
  rw [hrest]
  exact ⟨rfl, hworld, rfl, rfl⟩

theorem unchanged_of_eval (he : e.Standard) {r : Except EvalError Value}
    (h : m.eval e = (r, m₁)) : m.Unchanged m₁ :=
  unchanged_of_world (passes_of_eval World.extends_passage Library.standard_extends he h)

theorem unchanged_of_values {es : List Checked} (hes : ∀ e ∈ es, e.Standard)
    {r : Except EvalError (List Value)} (h : m.values es = (r, m₁)) : m.Unchanged m₁ :=
  unchanged_of_world (passes_of_values World.extends_passage Library.standard_extends hes h)

/-! ### One way to go on after another -/

theorem failsCleanly_of_ne {ending : Ending} (h : ∀ err, ending.1 ≠ .failed err) :
    m.FailsCleanly line ending := fun err herr => absurd herr (h err)

theorem failsCleanly_done (m' : Machine) : m.FailsCleanly line m'.done :=
  failsCleanly_of_ne fun _ herr => by cases herr

theorem failsCleanly_returned (m' : Machine) : m.FailsCleanly line (.returned, m') :=
  failsCleanly_of_ne fun _ herr => by cases herr

theorem failsCleanly_fail (h : m.Unchanged m₁) (fault : RunFault) :
    m.FailsCleanly line (m₁.fail line fault) := by
  rintro err ⟨⟩
  exact ⟨h, fault, rfl⟩

theorem failsCleanly_withValue (he : e.Standard) {go : Value → Machine → Ending}
    (hgo : ∀ v m₁, m.Unchanged m₁ → m.FailsCleanly line (go v m₁)) :
    m.FailsCleanly line (m.withValue line e go) :=
  withValue_cases (fun v m₁ heval => hgo v m₁ (unchanged_of_eval he heval))
    fun _ _ heval => failsCleanly_fail (unchanged_of_eval he heval) _

theorem failsCleanly_withVariable (h : m.Unchanged m₁) {go : Value → Ending}
    (hgo : ∀ v, m.FailsCleanly line (go v)) : m.FailsCleanly line (m₁.withVariable line name go) :=
  withVariable_cases (fun v _ => hgo v) fun _ => failsCleanly_fail h _

theorem failsCleanly_store (h : m.Unchanged m₁) (v : Value) :
    m.FailsCleanly line (m₁.store line name v) :=
  store_cases (fun _ _ => failsCleanly_done _) fun _ => failsCleanly_fail h _

theorem failsCleanly_introduce (h : m.Unchanged m₁) (type : Ty) (v : Value) :
    m.FailsCleanly line (m₁.introduce line name type v) := by
  unfold introduce
  split
  · exact failsCleanly_done _
  · exact failsCleanly_fail h _

/-! ### Statements without blocks -/

theorem failsCleanly_declare {type : Ty} {initial : Option Checked}
    (hinitial : ∀ e ∈ initial.toList, e.Standard) :
    m.FailsCleanly line (m.declare line name type initial) := by
  cases initial with
  | none =>
    have hcell : m.Unchanged (m.withHeap (m.world.heap.initial type).2) :=
      ⟨rfl, ⟨.initial m.world.heap type, rfl⟩, rfl, rfl⟩
    exact failsCleanly_introduce hcell type _
  | some e =>
    exact failsCleanly_withValue (hinitial e List.mem_cons_self) fun v _ h =>
      failsCleanly_introduce h type v

theorem failsCleanly_compound {op : CompoundOp} (he : e.Standard) :
    m.FailsCleanly line (m.compound line name op e) := by
  refine failsCleanly_withValue he fun operand m₁ h => failsCleanly_withVariable h fun current => ?_
  dsimp only
  split
  · split
    · exact failsCleanly_store h _
    · exact failsCleanly_fail h _
  · exact failsCleanly_store h _
  · exact failsCleanly_done _
  · exact failsCleanly_done _
  · exact failsCleanly_done _
  · exact failsCleanly_fail h _

theorem failsCleanly_returnWith {value : Option Checked}
    (hvalue : ∀ e ∈ value.toList, e.Standard) :
    m.FailsCleanly line (m.returnWith line value) := by
  cases value with
  | none => exact failsCleanly_returned m
  | some e =>
    refine failsCleanly_withValue (hvalue e List.mem_cons_self) fun v m₁ h => ?_
    split
    · exact failsCleanly_returned _
    · exact failsCleanly_fail h _

theorem failsCleanly_delay (he : e.Standard) (body : List Statement) :
    m.FailsCleanly line (m.delay line e body) := by
  refine failsCleanly_withValue he fun v m₁ h => ?_
  dsimp only
  split
  · split
    · split
      · exact failsCleanly_fail h _
      · exact failsCleanly_done _
    · exact failsCleanly_fail h _
  · exact failsCleanly_fail h _

/-- A place is taken away by making a new sequence, which is no part of what was there if the
variable then turns out to be missing. -/
theorem failsCleanly_applyChange (h : m.Unchanged m₁) {c : Change} {target : Value}
    {values : List Value} : m.FailsCleanly line (m₁.applyChange line name c target values) := by
  refine applyChange_cases (fun _ => failsCleanly_done _) (fun items => ?_)
    fun fault => failsCleanly_fail h fault
  have hcell : m₁.Unchanged (m₁.withHeap (m₁.world.heap.newList items).2) :=
    ⟨rfl, ⟨.newList m₁.world.heap items, rfl⟩, rfl, rfl⟩
  exact failsCleanly_store (h.trans hcell) _

theorem failsCleanly_change {c : Change} (hc : ∀ e ∈ c.expressions, e.Standard) :
    m.FailsCleanly line (m.change line name c) := by
  unfold change
  split
  · rename_i hvalues
    exact failsCleanly_fail (unchanged_of_values hc hvalues) _
  · rename_i vs m₁ hvalues
    have h := unchanged_of_values hc hvalues
    exact failsCleanly_withVariable h fun target => failsCleanly_applyChange h

end Machine

namespace Statement

/-- The line of a statement that runs no block. That is so of a delay, whose block waits; a jump
out of a loop has no line, and cannot fail. -/
def leafLine? : Statement → Option Nat
  | declare line _ _ _ => some line
  | assign line _ _ => some line
  | compound line _ _ _ => some line
  | returnWith line _ => some line
  | change line _ _ => some line
  | call line _ => some line
  | delay line _ _ => some line
  | _ => none

variable {s : Statement} {line limit : Nat} {m : Machine}

theorem leaf_failsCleanly (hleaf : s.leafLine? = some line) (hs : ∀ e ∈ s.expressions, e.Standard)
    {ending : Ending} (hrun : s.run limit m = some ending) : m.FailsCleanly line ending := by
  cases s with
  | declare l name type initial =>
    cases hleaf
    cases hrun
    exact Machine.failsCleanly_declare hs
  | assign l name value =>
    cases hleaf
    cases hrun
    exact Machine.failsCleanly_withValue (hs value List.mem_cons_self) fun v _ h =>
      Machine.failsCleanly_store h v
  | compound l name op value =>
    cases hleaf
    cases hrun
    exact Machine.failsCleanly_compound (hs value List.mem_cons_self)
  | returnWith l value =>
    cases hleaf
    cases hrun
    exact Machine.failsCleanly_returnWith hs
  | change l name c =>
    cases hleaf
    cases hrun
    exact Machine.failsCleanly_change hs
  | call l e =>
    cases hleaf
    cases hrun
    exact Machine.failsCleanly_withValue (hs e List.mem_cons_self) fun _ m₁ _ =>
      Machine.failsCleanly_done m₁
  | delay l duration body =>
    cases hleaf
    cases hrun
    exact Machine.failsCleanly_delay (hs duration List.mem_cons_self) body
  | _ => cases hleaf

/-- **A statement that fails changes nothing.** Take a declaration, an assignment, a compound
assignment, a return, a change of a structural variable, a call or a delay, well typed or not, whose
expressions call functions of the standard library only, and any state. If it fails, then all
variables, all cells that were there and the queue are as they were, and what is told about the
error begins with the line of the statement. -/
theorem failed_leaf_unchanged (hleaf : s.leafLine? = some line)
    (hs : ∀ e ∈ s.expressions, e.Standard) {m' : Machine} {err : RunError}
    (hrun : s.run limit m = some (.failed err, m')) :
    m.Unchanged m' ∧ ∃ fault : RunFault, err = .atLine line fault ∧
      err.message = s!"line {line}: " ++ fault.message := by
  obtain ⟨hsame, fault, rfl⟩ := leaf_failsCleanly hleaf hs hrun err rfl
  exact ⟨hsame, fault, rfl, rfl⟩

/-- A shelf with one text, and labels in groups. -/
def shelf : Machine :=
  ⟨⟨⟨⟨#[[.text "book"]]⟩, .empty, ⟨#[⟨[("red", [.text "a", .text "b"])]⟩]⟩⟩, []⟩,
    ⟨.empty, [⟨[("labels", ⟨.text ||| .groups, .groups 0⟩),
      ("shelf", ⟨.text ||| .collection, .collection 0⟩)]⟩]⟩, none, "prog"⟩

/-- `setitem shelf[count(@labels['red'])] = 'vase'` -/
def replaceThird : Statement :=
  .change 7 "shelf" (.set (.call Library.Standard.countItems [
    .index (.var "labels" (.text ||| .groups)) (.literal (.text "red")) (.text ||| .collection)])
    (.literal (.text "vase")))

/-- There is no third place on the shelf. The labels that were counted are in a new cell, and all
that was there is as it was. -/
theorem failed_leaf_unchanged_replaceThird :
    ∃ err m', replaceThird.run 1 shelf = some (.failed err, m') ∧ shelf.Unchanged m' ∧
      ∃ fault : RunFault, err = .atLine 7 fault ∧
        err.message = s!"line {(7 : Nat)}: " ++ fault.message := by
  have hstandard : ∀ e ∈ replaceThird.expressions, e.Standard := by
    intro e he
    simp only [replaceThird, expressions, Change.expressions, List.mem_cons, List.not_mem_nil,
      or_false] at he
    rcases he with rfl | rfl
    · exact ⟨List.mem_cons_self, ⟨trivial, trivial⟩, trivial⟩
    · trivial
  obtain ⟨err, m', hrun⟩ : ∃ err m', replaceThird.run 1 shelf = some (.failed err, m') :=
    ⟨_, _, rfl⟩
  exact ⟨err, m', hrun, failed_leaf_unchanged rfl hstandard hrun⟩

end Statement

end WorldScript
