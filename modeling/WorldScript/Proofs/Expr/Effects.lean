import WorldScript.Proofs.Expr.Local
import WorldScript.Proofs.Heap.Reach

/-! # What an evaluation does to the world

An expression can change the world in two ways: it makes a new sequence when it looks up a group,
and it calls functions. So a relation between worlds that holds after both, and from step to step,
holds after every evaluation. Two such relations are used: no cell ceases to exist, which can be
asked of any function, and *nothing that was there is changed*, which the functions of the standard
library promise.

* `World.Passage`, `Checked.eval_passes`: the statement for any relation of this sort.
* `Heap.Extends`, `World.Extends`: what was there is there, and holds the same.
* `Library.standard_extends`: the functions of the standard library change nothing. -/

namespace WorldScript

variable {R : World → World → Prop} {w w' w'' : World}

/-- A relation between a world and a later one that allows for new sequences. -/
structure World.Passage (R : World → World → Prop) : Prop where
  refl : ∀ w, R w w
  trans : ∀ {w w' w''}, R w w' → R w' w'' → R w w''
  newList : ∀ w items, R w { w with heap := (w.heap.newList items).2 }

namespace Eval

variable {α β : Type}

/-- However the computation ends, the world after it is related to the one before it. -/
def Passes (R : World → World → Prop) (x : Eval α) (w : World) : Prop := wp x (fun _ w' => R w w') w

variable (hR : World.Passage R)

include hR

theorem passes_pure (a : α) : Passes R (pure a) w := hR.refl w

theorem passes_throw (e : EvalError) : Passes R (throw e : Eval α) w := hR.refl w

theorem Passes.bind {x : Eval α} {f : α → Eval β} (hx : Passes R x w)
    (hf : ∀ a w', Passes R (f a) w') : Passes R (x >>= f) w :=
  wp_bind_of hx (fun a w' hw => wp_mono (hf a w') fun _ _ hw' => hR.trans hw hw') fun _ _ hw => hw

theorem passes_get {f : World → Eval β} (hf : ∀ a, Passes R (f a) w) :
    Passes R (get >>= f) w :=
  wp_bind_of (x := get) (R := fun _ w' => w' = w) rfl (fun a _ hw => hw ▸ hf a)
    fun _ _ hw => hw ▸ hR.refl w

theorem passes_render (v : Value) : Passes R (render v) w := passes_get hR fun _ => passes_pure hR _

theorem passes_number (v : Value) : Passes R (number v) w := by
  unfold number
  split
  · exact passes_pure hR _
  · exact .bind hR (passes_render hR v) fun _ _ => passes_throw hR _

theorem passes_boolean (v : Value) : Passes R (boolean v) w := by
  unfold boolean
  split
  · exact passes_pure hR _
  · exact .bind hR (passes_render hR v) fun _ _ => passes_throw hR _

theorem passes_newList (items : List Value) : Passes R (newList items) w := hR.newList w items

omit hR in
theorem passes_call {f : Function} (hf : ∀ args w, R w (f.run args w).2) (args : List Value) :
    Passes R (call f args) w := by
  have hcall := hf args w
  unfold Passes call
  simp only [wp_bind, wp_get, wp_set]
  split <;> exact hcall

end Eval

open Eval

section

variable (hR : World.Passage R)

include hR

theorem Comparison.passes_apply (op : Comparison) (a b : Value) : Passes R (op.apply a b) w := by
  refine passes_get hR fun w' => ?_
  cases op
  case equal | unequal => exact passes_pure hR _
  all_goals
    cases a.order? b with
    | some o => exact passes_pure hR _
    | none => exact passes_throw hR _

theorem Value.passes_at (target key : Value) : Passes R (target.at key) w := by
  refine passes_get hR fun w' => ?_
  dsimp only
  split
  · split
    · exact passes_throw hR _
    · exact passes_pure hR _
  · split
    · exact passes_pure hR _
    · exact passes_throw hR _
  · exact passes_newList hR _
  · exact passes_throw hR _

end

namespace Checked

variable {vars : Space} {P : Function → Prop}

mutual

/-- The world after an evaluation is related to the one before it, if that holds of all functions
that are called. -/
theorem eval_passes (hR : World.Passage R) (hP : ∀ f, P f → ∀ args w, R w (f.run args w).2) :
    ∀ (e : Checked), e.CallsOnly P → ∀ {w : World}, Passes R (e.eval vars) w
  | literal l, _, w => by
    rw [eval]
    exact passes_pure hR _
  | var name type, _, w => by
    rw [eval]
    cases vars.value? name with
    | some v => exact passes_pure hR _
    | none => exact passes_throw hR _
  | negate e, h, w => by
    rw [eval]
    exact .bind hR (eval_passes hR hP e h) fun v _ =>
      .bind hR (passes_number hR v) fun _ _ => passes_pure hR _
  | not e, h, w => by
    rw [eval]
    exact .bind hR (eval_passes hR hP e h) fun v _ =>
      .bind hR (passes_boolean hR v) fun _ _ => passes_pure hR _
  | arithmetic op l r, h, w => by
    rw [eval]
    refine .bind hR (eval_passes hR hP l h.1) fun a _ => .bind hR (passes_number hR a) fun n _ =>
      .bind hR (eval_passes hR hP r h.2) fun b _ => .bind hR (passes_number hR b) fun k _ => ?_
    cases op.apply n k with
    | ok result => exact passes_pure hR _
    | error e => exact passes_throw hR _
  | concat l r, h, w => by
    rw [eval]
    exact .bind hR (eval_passes hR hP l h.1) fun a _ => .bind hR (eval_passes hR hP r h.2) fun b _ =>
      .bind hR (passes_render hR a) fun _ _ => .bind hR (passes_render hR b) fun _ _ =>
        passes_pure hR _
  | compare op l r, h, w => by
    rw [eval]
    exact .bind hR (eval_passes hR hP l h.1) fun a _ => .bind hR (eval_passes hR hP r h.2) fun b _ =>
      .bind hR (op.passes_apply hR a b) fun _ _ => passes_pure hR _
  | and l r, h, w => by
    rw [eval]
    refine .bind hR (eval_passes hR hP l h.1) fun a _ => .bind hR (passes_boolean hR a) fun b _ => ?_
    cases b with
    | false => exact passes_pure hR _
    | true =>
      exact .bind hR (eval_passes hR hP r h.2) fun c _ =>
        .bind hR (passes_boolean hR c) fun _ _ => passes_pure hR _
  | or l r, h, w => by
    rw [eval]
    refine .bind hR (eval_passes hR hP l h.1) fun a _ => .bind hR (passes_boolean hR a) fun b _ => ?_
    cases b with
    | true => exact passes_pure hR _
    | false =>
      exact .bind hR (eval_passes hR hP r h.2) fun c _ =>
        .bind hR (passes_boolean hR c) fun _ _ => passes_pure hR _
  | index t k type, h, w => by
    rw [eval]
    exact .bind hR (eval_passes hR hP t h.1) fun a _ => .bind hR (eval_passes hR hP k h.2) fun b _ =>
      a.passes_at hR b
  | call f args, h, w => by
    rw [eval]
    exact .bind hR (evalAll_passes hR hP args h.2) fun vs _ => passes_call (hP f h.1) vs

theorem evalAll_passes (hR : World.Passage R) (hP : ∀ f, P f → ∀ args w, R w (f.run args w).2) :
    ∀ (es : List Checked), AllCallOnly P es → ∀ {w : World}, Passes R (evalAll vars es) w
  | [], _, w => by
    rw [evalAll]
    exact passes_pure hR _
  | e :: es, h, w => by
    rw [evalAll]
    exact .bind hR (eval_passes hR hP e h.1) fun _ _ =>
      .bind hR (evalAll_passes hR hP es h.2) fun _ _ => passes_pure hR _

end

end Checked

/-! ### Cells that stay as they are -/

/-- All cells are still there, and hold what they held. -/
structure Heap.Extends (h h' : Heap) : Prop where
  live : ∀ {v}, h.Live v → h'.Live v
  same : ∀ {v}, h.Live v → h.SameCell h' v

namespace Heap.Extends

variable {h h' h'' : Heap}

theorem refl (h : Heap) : h.Extends h := ⟨id, fun _ => .refl h _⟩

theorem trans (h₁ : h.Extends h') (h₂ : h'.Extends h'') : h.Extends h'' :=
  ⟨fun hv => h₂.live (h₁.live hv), fun hv => (h₁.same hv).trans (h₂.same (h₁.live hv))⟩

theorem newList (h : Heap) (items : List Value) : h.Extends (h.newList items).2 := by
  refine ⟨(keeps_newList h items).live, ?_⟩
  intro v hv
  cases v with
  | collection c => exact Pool.get_alloc_of_lt hv items
  | _ => trivial

theorem newDict (h : Heap) (entries : Dict Value) : h.Extends (h.newDict entries).2 := by
  refine ⟨(keeps_newDict h entries).live, ?_⟩
  intro v hv
  cases v with
  | dictionary c => exact Pool.get_alloc_of_lt hv entries
  | _ => trivial

theorem newGroups (h : Heap) (entries : Dict (List Value)) :
    h.Extends (h.newGroups entries).2 := by
  refine ⟨(keeps_newGroups h entries).live, ?_⟩
  intro v hv
  cases v with
  | groups c => exact Pool.get_alloc_of_lt hv entries
  | _ => trivial

theorem initial (h : Heap) (type : Ty) : h.Extends (h.initial type).2 := by
  unfold Heap.initial
  split
  · exact newGroups h _
  · split
    · exact newDict h _
    · split
      · exact newList h _
      · split
        · exact refl h
        · split
          · exact refl h
          · split <;> exact refl h

end Heap.Extends

/-- Nothing that was there is changed, and no note is made. -/
structure World.Extends (w w' : World) : Prop where
  heap : w.heap.Extends w'.heap
  notes : w'.notes = w.notes

theorem World.extends_passage : Passage Extends where
  refl _ := ⟨.refl _, rfl⟩
  trans h₁ h₂ := ⟨h₁.heap.trans h₂.heap, h₂.notes.trans h₁.notes⟩
  newList w items := ⟨.newList w.heap items, rfl⟩

theorem World.grows_passage : Passage fun w w' => w.heap.Grows w'.heap where
  refl _ := .refl _
  trans h₁ h₂ := h₁.trans h₂
  newList w items := (w.heap.keeps_newList items).grows

/-- The functions of the standard library only read. -/
theorem Library.standard_reads {f : Function} (hf : f ∈ standard.functions) (args : List Value)
    (w : World) : (f.run args w).2 = w := by
  simp only [standard, List.mem_cons, List.not_mem_nil, or_false] at hf
  rcases hf with rfl | rfl | rfl | rfl | rfl | rfl | rfl | rfl | rfl | rfl | rfl | rfl | rfl |
    rfl | rfl | rfl | rfl <;> rfl

theorem Library.standard_extends (f : Function) (hf : f ∈ standard.functions) (args : List Value)
    (w : World) : w.Extends (f.run args w).2 := by
  rw [standard_reads hf]
  exact World.extends_passage.refl w

end WorldScript
