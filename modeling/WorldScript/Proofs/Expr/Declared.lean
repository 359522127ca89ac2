import WorldScript.Proofs.Expr.Typed
import WorldScript.Proofs.Expr.Wp
import WorldScript.Proofs.Space.Types

/-! # Expressions find their variables

The evaluation of an expression that is typed in a scope never comes to a name that is not declared,
as long as the scope agrees with the variables.

* `Checked.eval_named`: the statement for one expression. -/

namespace WorldScript

open Space (Agrees)

/-- The outcome is not that a name is missing. -/
def Named {α : Type} (r : Except EvalError α) : Prop := ∀ name, r ≠ .error (.undeclared name)

namespace Eval

variable {α β : Type} {w : World}

/-- The computation never comes to a name that is missing. -/
def FindsNames (x : Eval α) : Prop := ∀ w, wp x (fun r _ => Named r) w

theorem named_ok (a : α) : Named (.ok a) := fun _ h => by cases h

theorem FindsNames.pure (a : α) : FindsNames (pure a : Eval α) := fun _ => named_ok a

theorem FindsNames.get : FindsNames (get : Eval World) := fun w => named_ok w

theorem FindsNames.set (w : World) : FindsNames (set w : Eval PUnit) := fun _ => named_ok _

theorem FindsNames.throw {e : EvalError} (h : ∀ name, e ≠ .undeclared name) :
    FindsNames (throw e : Eval α) := by
  intro w name heq
  exact h name (Except.error.inj heq)

theorem FindsNames.bind {x : Eval α} {f : α → Eval β} (hx : x.FindsNames)
    (hf : ∀ a, (f a).FindsNames) : (x >>= f).FindsNames := by
  intro w
  refine wp_bind_of (hx w) ?_ ?_
  · intro a w' _
    exact hf a w'
  · intro e w' he name heq
    exact he name (by rw [Except.error.inj heq])

theorem findsNames_render (v : Value) : (render v).FindsNames :=
  .bind .get fun _ => .pure _

theorem findsNames_number (v : Value) : (number v).FindsNames := by
  unfold number
  split
  · exact .pure _
  · exact .bind (findsNames_render v) fun _ => .throw fun _ h => by cases h

theorem findsNames_boolean (v : Value) : (boolean v).FindsNames := by
  unfold boolean
  split
  · exact .pure _
  · exact .bind (findsNames_render v) fun _ => .throw fun _ h => by cases h

theorem findsNames_newList (items : List Value) : (newList items).FindsNames :=
  .bind .get fun _ => .bind (.set _) fun _ => .pure _

theorem findsNames_call (f : Function) (args : List Value) : (call f args).FindsNames := by
  refine .bind .get fun w => .bind (.set _) fun _ => ?_
  split
  · exact .pure _
  · exact .throw fun _ h => by cases h

end Eval

open Eval (FindsNames findsNames_render findsNames_number findsNames_boolean findsNames_newList
  findsNames_call)

theorem Arithmetic.apply_named (op : Arithmetic) (a b : Float) : Named (op.apply a b) := by
  intro name h
  cases op <;> simp only [apply] at h
  case add | sub | mul => cases h
  all_goals
    split at h
    · cases h
    · cases h

theorem Comparison.findsNames_apply (op : Comparison) (a b : Value) :
    (op.apply a b).FindsNames := by
  refine .bind .get fun w => ?_
  cases op
  case equal | unequal => exact .pure _
  all_goals
    cases a.order? b with
    | some o => exact .pure _
    | none => exact .throw fun _ h => by cases h

theorem Value.findsNames_at (target key : Value) : (target.at key).FindsNames := by
  refine .bind .get fun w => ?_
  split
  · dsimp only
    split
    · exact .throw fun _ h => by cases h
    · exact .pure _
  · dsimp only
    split
    · exact .pure _
    · exact .throw fun _ h => by cases h
  · exact findsNames_newList _
  · exact .throw fun _ h => by cases h

namespace Checked

variable {lib : Library} {scope : Scope} {slot : Option Ty} {vars : Space}

mutual

/-- An expression that is typed finds its variables where its scope agrees with them. -/
theorem eval_named (hvars : Agrees slot scope vars) : ∀ (e : Checked), e.Typed lib scope →
    (e.eval vars).FindsNames
  | literal l, _ => by
    rw [eval]
    exact .pure _
  | var name type, h => by
    obtain ⟨v, hget⟩ := Space.get?_of_type? (hvars.type?_of_lookup h)
    rw [eval, Space.value?, hget]
    exact .pure _
  | negate e, h => by
    rw [eval]
    exact .bind (eval_named hvars e h.1) fun v => .bind (findsNames_number v) fun _ => .pure _
  | not e, h => by
    rw [eval]
    exact .bind (eval_named hvars e h.1) fun v => .bind (findsNames_boolean v) fun _ => .pure _
  | arithmetic op l r, h => by
    rw [eval]
    refine .bind (eval_named hvars l h.1) fun a => .bind (findsNames_number a) fun a' =>
      .bind (eval_named hvars r h.2.1) fun b => .bind (findsNames_number b) fun b' => ?_
    have hnamed := op.apply_named a' b'
    cases hop : op.apply a' b' with
    | ok n => exact .pure _
    | error e =>
      refine .throw fun name heq => hnamed name ?_
      rw [hop, heq]
  | concat l r, h => by
    rw [eval]
    exact .bind (eval_named hvars l h.1) fun a => .bind (eval_named hvars r h.2.1) fun b =>
      .bind (findsNames_render a) fun _ => .bind (findsNames_render b) fun _ => .pure _
  | compare op l r, h => by
    rw [eval]
    exact .bind (eval_named hvars l h.1) fun a => .bind (eval_named hvars r h.2.1) fun b =>
      .bind (op.findsNames_apply a b) fun _ => .pure _
  | and l r, h => by
    rw [eval]
    refine .bind (eval_named hvars l h.1) fun a => .bind (findsNames_boolean a) fun b => ?_
    cases b with
    | false => exact .pure _
    | true =>
      exact .bind (eval_named hvars r h.2.1) fun c => .bind (findsNames_boolean c) fun _ => .pure _
  | or l r, h => by
    rw [eval]
    refine .bind (eval_named hvars l h.1) fun a => .bind (findsNames_boolean a) fun b => ?_
    cases b with
    | true => exact .pure _
    | false =>
      exact .bind (eval_named hvars r h.2.1) fun c => .bind (findsNames_boolean c) fun _ => .pure _
  | index t k type, h => by
    rw [eval]
    exact .bind (eval_named hvars t h.1) fun a => .bind (eval_named hvars k h.2.1) fun b =>
      a.findsNames_at b
  | call f args, h => by
    rw [eval]
    exact .bind (evalAll_named hvars args h.1) fun vs => findsNames_call f vs

theorem evalAll_named (hvars : Agrees slot scope vars) : ∀ (es : List Checked),
    AllTyped lib scope es → (evalAll vars es).FindsNames
  | [], _ => by
    rw [evalAll]
    exact .pure _
  | e :: es, h => by
    rw [evalAll]
    exact .bind (eval_named hvars e h.1) fun _ => .bind (evalAll_named hvars es h.2) fun _ =>
      .pure _

end

end Checked

end WorldScript
