import WorldScript.Proofs.Expr.Declared
import WorldScript.Proofs.Program.Visits
import WorldScript.Proofs.Run.Faults

/-! # Names in runs

The scope with which a statement was compiled and the variables at the moment at which it runs have
the same names, with the same types. So a run never fails because of a name: every declaration finds
its name free, and every assignment and every look-up finds its variable.

* `Program.visible_names_eq_scope`: the statement for all points that a program visits. -/

namespace WorldScript

open Space (Agrees)

/-- The error is about a name: it is declared twice, or not at all. -/
def RunError.IsNameFault : RunError → Prop
  | .atLine _ (.alreadyDeclared _) => True
  | .atLine _ (.undeclared _) => True
  | .atLine _ (.eval (.undeclared _)) => True
  | .loopVariable _ => True
  | _ => False

theorem RunError.IsNameFault.of_line {line line' : Nat} {fault : RunFault}
    (h : (RunError.atLine line fault).IsNameFault) : (RunError.atLine line' fault).IsNameFault := by
  cases fault with
  | eval err => cases err <;> exact h
  | _ => exact h

namespace Machine

variable {slot : Option Ty} {p : Place} {m m' : Machine} {e : Checked} {line : Nat} {name : String}

theorem not_nameFault {α : Type} {err : EvalError} (h : Named (.error err : Except EvalError α)) :
    ¬ (RunError.atLine line (.eval err)).IsNameFault := by
  intro hfault
  cases err with
  | undeclared name => exact h name rfl
  | _ => exact hfault

theorem not_nameFault_eval {err : EvalError} (he : e.Typed p.context.library p.scope)
    (h : Agrees slot p.scope m.vars) (heval : m.eval e = (.error err, m')) :
    ¬ (RunError.atLine line (.eval err)).IsNameFault := by
  have hnamed : Named (m.eval e).1 := Checked.eval_named h e he m.world
  rw [heval] at hnamed
  exact not_nameFault hnamed

/-- A change finds the variable that it assigns to, if it assigns to one. -/
theorem applyChange_avoids {c : Change} {type : Ty} {target : Value} {values : List Value}
    (h : m.vars.type? name = some type) :
    Avoids RunError.IsNameFault (m.applyChange line name c target values) := by
  unfold applyChange
  split
  case h_6 =>
    -- the only change that assigns to the variable itself
    refine avoids_require_place (fun _ hf => hf) (fun _ hf => hf) fun i => ?_
    refine store_cases (fun _ _ => avoids_done _) fun hnone => ?_
    obtain ⟨old, hget⟩ := Space.get?_of_type? h
    obtain ⟨vars, hsome, -⟩ := Space.set?_of_get? hget _
    cases hsome.symm.trans hnone
  case h_2 | h_10 | h_12 | h_13 =>
    exact avoids_require_keyText (fun _ hf => hf) fun _ => avoids_done _
  case h_11 => exact avoids_require_place (fun _ hf => hf) (fun _ hf => hf) fun _ => avoids_done _
  case h_4 | h_14 => exact avoids_fail fun hf => hf
  all_goals exact avoids_done _

end Machine

/-! ### What a statement itself signals -/

namespace Statement

variable {slot : Option Ty} {p : Place} {s : Statement} {m : Machine} {stage : Stage}
  {ending : Ending}

/-- No way in which a statement can fail at its beginning is about a name. -/
theorem not_nameFault_of_fails (hs : s.WellPlaced p) (hserves : p.Serves slot)
    (h : Agrees slot p.scope m.vars) {line : Nat} {fault : RunFault} (hfails : s.Fails m fault) :
    ¬ (RunError.atLine line fault).IsNameFault := by
  cases hfails with
  | eval he hvars heval =>
    rw [← hvars] at h
    exact Machine.not_nameFault_eval (hs.heads_typed _ he) h heval
  | @arithmetic _ _ op _ a b err herr =>
    have hnamed := Arithmetic.apply_named op.arithmetic a b
    rw [herr] at hnamed
    exact Machine.not_nameFault hnamed
  | declared hdeclared =>
    obtain ⟨hfree, -⟩ := hs
    exact absurd (h.get?_eq_none hfree.fresh hfree.ne_slot) hdeclared
  | undeclared htarget hreturn hnone =>
    obtain ⟨type, hlookup⟩ := lookup_of_target? hs htarget hreturn
    obtain ⟨v, hget⟩ := Space.get?_of_type? (h.type?_of_lookup hlookup)
    rw [hget] at hnone
    cases hnone
  | noSlot hnone =>
    obtain ⟨-, hvoid, -⟩ := hs
    have hslot : m.vars.type? Name.returnSlot = some p.context.returns := by
      rw [h.types, if_pos Space.lower_returnSlot, hserves hvoid]
    obtain ⟨v, hget⟩ := Space.get?_of_type? hslot
    rw [hget] at hnone
    cases hnone
  | change hvalues _ happly =>
    obtain ⟨type, hlookup, -⟩ := hs
    have htype := h.type?_of_lookup hlookup
    rw [← Machine.vars_of_values hvalues] at htype
    exact fun hf => Machine.applyChange_avoids htype _ happly hf.of_line
  | _ => exact fun hf => hf

/-- The variable of a block is never there already. -/
theorem open?_ne_none (hs : s.WellPlaced p) (h : Agrees slot p.scope m.vars) {e : Entry}
    {stage' : Stage} {m' : Machine} (hturn : s.turn stage m = .block e stage' m') :
    e.open? m' ≠ none := by
  have hvars := vars_turn s stage m
  rw [hturn] at hvars
  have hbound := (turn_block hturn).2
  unfold Entry.open?
  split
  · exact fun hf => by cases hf
  · rename_i name type v hsome
    rw [hsome] at hbound
    have hfree := free_of_bound? hs hbound.symm
    have hnone : m'.vars.push.get? name = none := by
      rw [Space.get?_push, show m'.vars = m.vars from hvars]
      exact h.get?_eq_none hfree.fresh hfree.ne_slot
    rw [Space.declare?_of_get? hnone]
    exact fun hf => by cases hf

/-- What a statement itself signals is never an error about a name. -/
theorem raises_clean {limit : Nat} {signal : Signal} (hs : s.WellPlaced p)
    (hserves : p.Serves slot) (h : Agrees slot p.scope m.vars)
    (hraises : s.Raises limit m signal) : signal.Avoids RunError.IsNameFault := by
  refine raises_avoids (fun ending => start_avoids ?_) ?_ ?_ hraises
  · exact fun line fault => not_nameFault_of_fails hs hserves h
  · intro stage m₁ ending hcomes hturn
    have h₁ := agrees_comesTo h hcomes
    refine turn_avoids (fun _ _ hf => hf) ?_ hturn
    intro test htest line m₂ err m₃ hvars heval
    rw [← hvars] at h₁
    exact Machine.not_nameFault_eval (hs.tests_typed test htest) h₁ heval
  · intro stage m₁ e stage' m₂ hcomes hturn hnone
    exact absurd hnone (open?_ne_none hs (agrees_comesTo h hcomes) hturn)

end Statement

/-! ### Runs -/

variable {library : Library} {settings : Settings} {d : Definition} {p : Program} {scope : Scope}

/-- Nothing that begins at a visited point ends with an error about a name. -/
theorem Program.Visits.clean (hp : d.Compiled library settings p scope) {Q : Point}
    (h : p.Visits ⟨d.context library settings, scope⟩ Q) {limit : Nat} {signal : Signal}
    {m' : Machine} (hrun : Statement.runAll limit Q.rest Q.machine = some (signal, m')) :
    signal.Avoids RunError.IsNameFault := by
  intro e he
  subst he
  obtain ⟨q, s, rest, m, hleads, hraises⟩ :=
    Statement.exists_raises limit Q.rest Q.place Q.machine _ m' (fun hf => by cases hf) hrun
  have hgood := (h.leads hleads).good hp
  have hs := hgood.everywhere.head
  exact Statement.raises_clean hs.1.wellPlaced hs.2 hgood.agrees hraises e rfl

/-- A program that returns nothing answers with nothing. -/
theorem Program.answer_eq_null (hp : d.Compiled library settings p scope)
    (hvoid : p.returns.isVoid = true) {limit : Nat} {arguments : List Value}
    {queue : Option (Queue DelayedBlock)} {w : World} {outcome : Outcome} {v : Value}
    (hrun : p.run limit arguments queue w = some outcome) (hv : outcome.answer = .ok v) :
    v = .null := by
  obtain ⟨m, signal, m', hstart, hbody, -, hvalue, -⟩ := run_eq_some hrun hv
  have hnone : m'.vars.get? Name.returnSlot = none := by
    rw [Space.get?_eq_none_iff, slot_of_runAll hp hstart hbody, slot, if_pos hvoid]
  rw [hvalue, Space.value?, hnone]
  rfl

/-- At every point that a program visits, the visible variables are those of the scope with which
the statements there were compiled, and the slot for the answer if there is one, with the types from
there. Nothing that runs from there on fails because of a name, and a program that returns nothing
answers with nothing. -/
theorem Program.visible_names_eq_scope (h : d.compile library settings = .ok p) :
    ∃ scope, Definition.addParameters .empty d.parameters = .ok scope ∧
      (∀ Q, p.Visits ⟨d.context library settings, scope⟩ Q →
        (∀ name, Q.machine.vars.type? name =
          if Text.lower name = Name.returnSlot then
            (if p.returns.isVoid then none else some p.returns)
          else Q.place.scope.lookup name) ∧
        (∀ s rest, Q.rest = s :: rest → Produced (Source.lines d.source) Q.place s) ∧
        ∀ limit e m, Statement.runAll limit Q.rest Q.machine = some (.failed e, m) →
          ¬ e.IsNameFault) ∧
      ∀ limit arguments queue w outcome v, p.returns.isVoid = true →
        p.run limit arguments queue w = some outcome → outcome.answer = .ok v → v = .null := by
  obtain ⟨scope, hp⟩ := Definition.compiled h
  refine ⟨scope, hp.declared, ?_, ?_⟩
  · intro Q hQ
    have hgood := hQ.good hp
    refine ⟨hgood.agrees.types, ?_, ?_⟩
    · intro s rest hrest
      have hall := hgood.everywhere
      rw [hrest] at hall
      exact hall.head.1
    · intro limit e m hrun
      exact hQ.clean hp hrun e rfl
  · intro limit arguments queue w outcome v hvoid hrun hv
    exact answer_eq_null hp hvoid hrun hv

/-- A program with a parameter and a loop. -/
def Definition.lastItem : Definition where
  name := "last"
  returns := .text
  parameters := [("items", .text ||| .collection)]
  source := "var t as text\nforeach (x in @items)\nt = @x\nend foreach\nreturn @t"

theorem Program.visible_names_eq_scope_lastItem :
    ∃ p m scope, Definition.lastItem.compile .standard {} = .ok p ∧
      p.start [.collection 0] none .oneList = .ok m ∧
      Definition.addParameters .empty Definition.lastItem.parameters = .ok scope ∧
      (∀ name, m.vars.type? name =
        if Text.lower name = Name.returnSlot then
          (if p.returns.isVoid then none else some p.returns)
        else scope.lookup name) ∧
      ∀ limit e m', Statement.runAll limit p.body m = some (.failed e, m') → ¬ e.IsNameFault := by
  have hstarts : (Definition.lastItem.started? [.collection 0] .oneList).isSome = true := by
    decide +kernel
  obtain ⟨⟨p, m⟩, hsome⟩ := Option.isSome_iff_exists.mp hstarts
  obtain ⟨hp, hm⟩ := Definition.started?_eq_some hsome
  obtain ⟨scope, hscope, hvisits, -⟩ := visible_names_eq_scope hp
  obtain ⟨htypes, -, hclean⟩ := hvisits _ (.start hm)
  exact ⟨p, m, scope, hp, hm, hscope, htypes, hclean⟩

end WorldScript
