import WorldScript.Expr.Eval

/-! # Reasoning about evaluations

`wp x Q w` says that the outcome of the computation `x` in the world `w`, be it a value or an error,
satisfies `Q` together with the world after it. The rules here take a computation apart from its
first step on. -/

namespace WorldScript

namespace Eval

variable {α β : Type} {Q R : Except EvalError α → World → Prop} {w : World}

/-- The outcome of a computation in a world satisfies `Q`. -/
def wp (x : Eval α) (Q : Except EvalError α → World → Prop) (w : World) : Prop :=
  Q (x.run.run w).1 (x.run.run w).2

theorem wp_mono {x : Eval α} (h : wp x Q w) (hQR : ∀ r w', Q r w' → R r w') : wp x R w :=
  hQR _ _ h

@[simp] theorem wp_pure (a : α) : wp (pure a) Q w ↔ Q (.ok a) w := Iff.rfl

@[simp] theorem wp_throw (e : EvalError) : wp (throw e) Q w ↔ Q (.error e) w := Iff.rfl

@[simp] theorem wp_get {Q : Except EvalError World → World → Prop} :
    wp get Q w ↔ Q (.ok w) w := Iff.rfl

@[simp] theorem wp_set {Q : Except EvalError PUnit → World → Prop} (w' : World) :
    wp (set w') Q w ↔ Q (.ok ⟨⟩) w' := Iff.rfl

theorem wp_bind {x : Eval α} {f : α → Eval β} {Q : Except EvalError β → World → Prop} :
    wp (x >>= f) Q w ↔
      wp x (fun r w' => match r with
        | .ok a => wp (f a) Q w'
        | .error e => Q (.error e) w') w := by
  show Q (((x >>= f).run).run w).1 _ ↔ _
  unfold wp
  simp only [ExceptT.run_bind, StateT.run_bind]
  rcases x.run.run w with ⟨r, w'⟩
  cases r <;> rfl

/-- A computation that goes on with a value only. -/
theorem wp_bind_of {x : Eval α} {f : α → Eval β} {Q : Except EvalError β → World → Prop}
    {R : Except EvalError α → World → Prop} (hx : wp x R w)
    (hok : ∀ a w', R (.ok a) w' → wp (f a) Q w')
    (herr : ∀ e w', R (.error e) w' → Q (.error e) w') : wp (x >>= f) Q w := by
  rw [wp_bind]
  refine wp_mono hx ?_
  intro r w' hr
  cases r with
  | ok a => exact hok a w' hr
  | error e => exact herr e w' hr

end Eval

end WorldScript
