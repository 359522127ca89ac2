import WorldScript.Library.Standard
import WorldScript.Proofs.Expr.Typed
import WorldScript.Proofs.Expr.Wp
import WorldScript.Proofs.Heap.Pairing

/-! # Expressions in heaps that are alike

Two evaluations of an expression, in worlds whose heaps are alike and with variables that are alike,
go *beside each other*: they give joined values or the same error, and leave heaps that are alike.
Functions of the library have to do the same; those of the standard library do, since they only
read, and what they tell of their arguments is the same for joined ones.

* `Eval.Beside`, `Eval.Beside.bind`: two computations beside each other.
* `Library.standard_local`: the functions of the standard library.
* `Checked.eval_beside`: the statement for one expression. -/

namespace WorldScript

/-- Heaps that are alike, and the notes of the beginning. -/
structure World.Alike (p : Pairing) (left right w w' : World) : Prop where
  heap : Heap.Alike p left.heap right.heap w.heap w'.heap
  notes : w.notes = left.notes
  notes' : w'.notes = right.notes

section Lists

variable {α β : Type} {R : α → β → Prop} {l : List α} {l' : List β}

theorem getElem?_alike (hl : List.Forall₂ R l l') (i : Nat) : Option.Rel R l[i]? l'[i]? := by
  induction hl generalizing i with
  | nil => exact .none
  | cons ha _ ih =>
    cases i with
    | zero => exact .some ha
    | succ i => exact ih i

theorem getD_alike (hl : List.Forall₂ R l l') (i : Nat) {a : α} {b : β} (hab : R a b) :
    R (l.getD i a) (l'.getD i b) := by
  rw [List.getD_eq_getElem?_getD, List.getD_eq_getElem?_getD]
  rcases rel_eq_or (getElem?_alike hl i) with ⟨h₁, h₂⟩ | ⟨_, _, h₁, h₂, hxy⟩
  · rw [h₁, h₂]
    exact hab
  · rw [h₁, h₂]
    exact hxy

end Lists

variable {p : Pairing} {left right w w' : World} {v v' : Value}

/-! ### Computations beside each other -/

namespace Eval

variable {α β : Type} {R : Heap → α → α → Prop} {S : Heap → β → β → Prop}

/-- Both computations succeed, with related results, or both fail, with the same error. Nothing
ceases to exist, and the worlds after them are alike. The relation may depend on the heap of the
first one. -/
structure Beside (p : Pairing) (left right : World) (R : Heap → α → α → Prop) (w w' : World)
    (x x' : Eval α) : Prop where
  alike : World.Alike p left right (x.run.run w).2 (x'.run.run w').2
  grows : w.heap.Grows (x.run.run w).2.heap
  agree : Agree (R (x.run.run w).2.heap) (x.run.run w).1 (x'.run.run w').1

/-- The results are the same. -/
def Equal (_ : Heap) (a a' : α) : Prop := a' = a

theorem Beside.pure (hw : World.Alike p left right w w') {a a' : α} (ha : R w.heap a a') :
    Beside p left right R w w' (pure a) (pure a') := ⟨hw, .refl _, .ok ha⟩

theorem Beside.throw (hw : World.Alike p left right w w') (e : EvalError) :
    Beside p left right R w w' (throw e) (throw e) := ⟨hw, .refl _, .error e⟩

theorem Beside.get {f f' : World → Eval β} (hf : Beside p left right S w w' (f w) (f' w')) :
    Beside p left right S w w' (get >>= f) (get >>= f') := ⟨hf.alike, hf.grows, hf.agree⟩

theorem run_bind_ok {x : Eval α} {a : α} (hx : x.run.run w = (.ok a, w')) (f : α → Eval β) :
    (x >>= f).run.run w = (f a).run.run w' := by
  simp only [ExceptT.run_bind, StateT.run_bind, hx]
  rfl

theorem run_bind_error {x : Eval α} {e : EvalError} (hx : x.run.run w = (.error e, w'))
    (f : α → Eval β) : (x >>= f).run.run w = (.error e, w') := by
  simp only [ExceptT.run_bind, StateT.run_bind, hx]
  rfl

theorem Beside.bind {x x' : Eval α} {f f' : α → Eval β} (hx : Beside p left right R w w' x x')
    (hf : ∀ a a' v v', World.Alike p left right v v' → w.heap.Grows v.heap → R v.heap a a' →
      Beside p left right S v v' (f a) (f' a')) :
    Beside p left right S w w' (x >>= f) (x' >>= f') := by
  obtain ⟨halike, hgrows, hagree⟩ := hx
  rcases hrun : x.run.run w with ⟨r, v⟩
  rcases hrun' : x'.run.run w' with ⟨r', v'⟩
  rw [hrun] at halike hgrows hagree
  rw [hrun'] at halike hagree
  dsimp only at halike hgrows hagree
  cases hagree with
  | ok ha =>
    obtain ⟨halike', hgrows', hagree'⟩ := hf _ _ v v' halike hgrows ha
    constructor <;> rw [run_bind_ok hrun]
    · rw [run_bind_ok hrun']
      exact halike'
    · exact hgrows.trans hgrows'
    · rw [run_bind_ok hrun']
      exact hagree'
  | error e =>
    constructor <;> rw [run_bind_error hrun]
    · rw [run_bind_error hrun']
      exact halike
    · exact hgrows
    · rw [run_bind_error hrun']
      exact .error e

/-- The first results are the same. -/
theorem Beside.bind_same {x x' : Eval α} {f f' : α → Eval β}
    (hx : Beside p left right Equal w w' x x')
    (hf : ∀ a v v', World.Alike p left right v v' → w.heap.Grows v.heap →
      Beside p left right S v v' (f a) (f' a)) :
    Beside p left right S w w' (x >>= f) (x' >>= f') := by
  refine hx.bind ?_
  rintro _ a v v' hv hgrows rfl
  exact hf a v v' hv hgrows

theorem beside_render (hw : World.Alike p left right w w') (hv : p.At w.heap v v') :
    Beside p left right Equal w w' (render v) (render v') :=
  .get (.pure hw (hw.heap.render hv))

theorem beside_number (hw : World.Alike p left right w w') (hv : p.At w.heap v v') :
    Beside p left right Equal w w' (number v) (number v') := by
  unfold number
  rw [hv.1.number?]
  cases v.number? with
  | some n => exact .pure hw rfl
  | none =>
    refine .bind_same (beside_render hw hv) fun shown u u' hu _ => ?_
    exact .throw hu _

theorem beside_boolean (hw : World.Alike p left right w w') (hv : p.At w.heap v v') :
    Beside p left right Equal w w' (boolean v) (boolean v') := by
  unfold boolean
  rw [hv.1.boolean?]
  cases v.boolean? with
  | some b => exact .pure hw rfl
  | none =>
    refine .bind_same (beside_render hw hv) fun shown u u' hu _ => ?_
    exact .throw hu _

theorem beside_newList (hw : World.Alike p left right w w') {items items' : List Value}
    (hitems : List.Forall₂ (p.At w.heap) items items') :
    Beside p left right p.At w w' (newList items) (newList items') := by
  obtain ⟨hheap, hnew⟩ := hw.heap.newList hitems
  exact ⟨⟨hheap, hw.notes, hw.notes'⟩, (w.heap.keeps_newList items).grows, .ok hnew⟩

end Eval

open Eval (Beside Equal)

theorem Pairing.Joins.order? {a a' b b' : Value} (ha : p.Joins a a') (hb : p.Joins b b') :
    a'.order? b' = a.order? b := by
  cases ha with
  | plain _ =>
    cases hb with
    | plain _ => rfl
    | _ => cases a <;> rfl
  | _ => rfl

theorem Comparison.beside_apply (op : Comparison) (hw : World.Alike p left right w w')
    {a a' b b' : Value} (ha : p.At w.heap a a') (hb : p.At w.heap b b') :
    Beside p left right Equal w w' (op.apply a b) (op.apply a' b') := by
  refine .get ?_
  cases op
  case equal => exact .pure hw (hw.heap.same ha hb)
  case unequal => exact .pure hw (congrArg not (hw.heap.same ha hb))
  all_goals
    dsimp only
    rw [ha.1.order? hb.1, hw.heap.render ha, hw.heap.render hb]
    cases a.order? b with
    | some o => exact .pure hw rfl
    | none => exact .throw hw _

/-- What is found under a key. -/
theorem Value.beside_at (hw : World.Alike p left right w w') {t t' k k' : Value}
    (ht : p.At w.heap t t') (hk : p.At w.heap k k') :
    Beside p left right p.At w w' (t.at k) (t'.at k') := by
  refine .get ?_
  have hthrow : Beside p left right p.At w w'
      (throw (.notIndexable (w.heap.render t) (w.heap.render k)))
      (throw (.notIndexable (w'.heap.render t') (w'.heap.render k'))) := by
    rw [hw.heap.render ht, hw.heap.render hk]
    exact .throw hw _
  cases ht.1 with
  | plain hplain =>
    cases t with
    | collection c => cases hplain
    | dictionary c => cases hplain
    | groups c => cases hplain
    | _ => exact hthrow
  | collection _ =>
    cases hk.1 with
    | plain _ =>
      cases k with
      | number n =>
        have hitems := hw.heap.list ht
        dsimp only
        rw [← hitems.length_eq]
        cases Number.isOutside n _ with
        | true => exact .throw hw _
        | false => exact .pure hw (getD_alike hitems _ (.of_plain rfl))
      | _ => exact hthrow
    | _ => exact hthrow
  | dictionary _ =>
    cases hk.1 with
    | plain _ =>
      cases k with
      | text key =>
        dsimp only
        rcases rel_eq_or ((hw.heap.dict ht).find? key) with ⟨h₁, h₂⟩ | ⟨_, _, h₁, h₂, hfound⟩
        · rw [h₁, h₂]
          exact .throw hw _
        · rw [h₁, h₂]
          exact .pure hw hfound
      | _ => exact hthrow
    | _ => exact hthrow
  | groups _ =>
    cases hk.1 with
    | plain _ =>
      cases k with
      | text key =>
        refine Eval.beside_newList hw ?_
        rcases rel_eq_or ((hw.heap.group ht).find? key) with ⟨h₁, h₂⟩ | ⟨_, _, h₁, h₂, hfound⟩
        · rw [h₁, h₂]
          exact .nil
        · rw [h₁, h₂]
          exact hfound
      | _ => exact hthrow
    | _ => exact hthrow

/-! ### Functions -/

/-- The function leaves the world as it is, and its answers are the same for joined arguments. -/
def Function.Local (f : Function) : Prop :=
  ∀ {p : Pairing} {left right w w' : World} {args args' : List Value},
    World.Alike p left right w w' → List.Forall₂ (p.At w.heap) args args' →
    (f.run args w).2 = w ∧ (f.run args' w').2 = w' ∧
      Agree (p.At w.heap) (f.run args w).1 (f.run args' w').1

theorem Eval.beside_call {f : Function} (hf : f.Local) (hw : World.Alike p left right w w')
    {args args' : List Value} (hargs : List.Forall₂ (p.At w.heap) args args') :
    Beside p left right p.At w w' (call f args) (call f args') := by
  obtain ⟨hsame, hsame', hagree⟩ := hf hw hargs
  unfold call
  refine .get ?_
  rcases hrun : f.run args w with ⟨answer, u⟩
  rcases hrun' : f.run args' w' with ⟨answer', u'⟩
  rw [hrun] at hsame hagree
  rw [hrun'] at hsame' hagree
  dsimp only at hsame hsame' hagree
  subst hsame hsame'
  cases hagree with
  | ok hv => exact ⟨hw, .refl _, .ok hv⟩
  | error e => exact ⟨hw, .refl _, .error _⟩

/-- A function that only reads is judged by its answers. -/
theorem Function.local_reading {name : String} {parameters : List Ty} {returns : Ty}
    {read : Heap → List Value → Except CallError Value}
    (hread : ∀ {p : Pairing} {left right h h' : Heap} {args args' : List Value},
      Heap.Alike p left right h h' → List.Forall₂ (p.At h) args args' →
      Agree (p.At h) (read h args) (read h' args')) :
    (reading name parameters returns read).Local :=
  fun hw hargs => ⟨rfl, rfl, hread hw.heap hargs⟩

namespace Library.Standard

variable {base base' h h' : Heap} {args args' : List Value} {function : String}
  (hh : Heap.Alike p base base' h h') (hargs : List.Forall₂ (p.At h) args args')

include hargs

theorem agree_numberArg (i : Nat) :
    Agree (· = ·) (numberArg function args i) (numberArg function args' i) := by
  unfold numberArg
  rcases rel_eq_or (getElem?_alike hargs i) with ⟨h₁, h₂⟩ | ⟨_, _, h₁, h₂, hv⟩
  · rw [h₁, h₂]
    exact .error _
  · rw [h₁, h₂, Option.bind_some, Option.bind_some, hv.1.number?]
    exact .refl _

theorem agree_textArg (i : Nat) :
    Agree (· = ·) (textArg function args i) (textArg function args' i) := by
  unfold textArg
  rcases rel_eq_or (getElem?_alike hargs i) with ⟨h₁, h₂⟩ | ⟨_, _, h₁, h₂, hv⟩
  · rw [h₁, h₂]
    exact .error _
  · rw [h₁, h₂, Option.bind_some, Option.bind_some, hv.1.text?]
    exact .refl _

include hh

theorem agree_itemsArg (i : Nat) :
    Agree (List.Forall₂ (p.At h)) (itemsArg function h args i) (itemsArg function h' args' i) := by
  unfold itemsArg
  rcases rel_eq_or (getElem?_alike hargs i) with ⟨h₁, h₂⟩ | ⟨v, v', h₁, h₂, hv⟩
  · rw [h₁, h₂]
    exact .error _
  · rw [h₁, h₂]
    cases hv.1 with
    | plain hplain =>
      cases v with
      | collection c => cases hplain
      | _ => exact .error _
    | collection _ => exact .ok (hh.list hv)
    | _ => exact .error _

theorem agree_entriesArg :
    Agree (Dict.Alike (p.At h)) (entriesArg function h args) (entriesArg function h' args') := by
  cases hargs with
  | nil => exact .error _
  | @cons v v' rest rest' hv _ =>
    cases hv.1 with
    | plain hplain =>
      cases v with
      | dictionary c => cases hplain
      | _ => exact .error _
    | dictionary _ => exact .ok (hh.dict hv)
    | _ => exact .error _

theorem agree_groupsArg :
    Agree (Dict.Alike (List.Forall₂ (p.At h))) (groupsArg function h args)
      (groupsArg function h' args') := by
  cases hargs with
  | nil => exact .error _
  | @cons v v' rest rest' hv _ =>
    cases hv.1 with
    | plain hplain =>
      cases v with
      | groups c => cases hplain
      | _ => exact .error _
    | groups _ => exact .ok (hh.group hv)
    | _ => exact .error _

omit hh hargs

/-- The number of items in all groups. -/
theorem count_alike {d d' : Dict (List Value)} (hd : Dict.Alike (List.Forall₂ (p.At h)) d d') :
    d'.entries.foldl (fun n e => n + e.2.length) 0 =
      d.entries.foldl (fun n e => n + e.2.length) 0 := by
  refine (List.rel_foldl (P := (· = ·)) ?_ rfl hd).symm
  rintro n _ rfl e e' ⟨-, hvalues⟩
  dsimp only
  rw [hvalues.length_eq]

theorem any_alike {items items' : List Value} (hitems : List.Forall₂ (p.At h) items items')
    {f f' : Value → Bool} (hf : ∀ v v', p.At h v v' → f' v' = f v) :
    items'.any f' = items.any f := by
  induction hitems with
  | nil => rfl
  | cons hv _ ih => rw [List.any_cons, List.any_cons, hf _ _ hv, ih]

theorem local_contains : contains.Local := by
  refine Function.local_reading fun {p _ _ h h' args args'} hh hargs => ?_
  refine .bind (agree_itemsArg hh hargs 0) fun items items' hitems => ?_
  rcases rel_eq_or (getElem?_alike hargs 1) with ⟨h₁, h₂⟩ | ⟨_, _, h₁, h₂, hneedle⟩
  · rw [h₁, h₂]
    exact .error _
  · rw [h₁, h₂]
    dsimp only
    rw [any_alike hitems fun _ _ hv => hh.same hv hneedle]
    exact .ok (.of_plain rfl)

theorem local_toNumber : toNumber.Local := by
  refine Function.local_reading fun _ hargs => (agree_textArg hargs 0).bind_same fun s => ?_
  cases Number.read? (Text.trim s.toList) with
  | some n => exact .ok (.of_plain rfl)
  | none => exact .error _

theorem local_toText : toText.Local := by
  refine Function.local_reading fun hh hargs => ?_
  cases hargs with
  | nil => exact .error _
  | cons hv _ =>
    dsimp only
    rw [hh.render hv]
    exact .ok (.of_plain rfl)

theorem local_isNull : isNull.Local := by
  refine Function.local_reading fun _ hargs => ?_
  cases hargs with
  | nil => exact .ok (.of_plain rfl)
  | cons hv _ =>
    dsimp only
    rw [hv.1.isNull]
    exact .ok (.of_plain rfl)

theorem local_name : name.Local := by
  refine Function.local_reading fun hh hargs => ?_
  cases hargs with
  | nil => exact .error _
  | @cons v v' rest rest' hv _ =>
    have hrender := hh.render hv
    cases hv.1 with
    | plain hplain =>
      cases v with
      | entity e => exact .ok (.of_plain rfl)
      | null => exact .error _
      | _ =>
        dsimp only
        rw [hrender]
        exact .error _
    | _ =>
      dsimp only
      rw [hrender]
      exact .error _

end Library.Standard

open Library.Standard in
/-- The functions of the standard library only read, and tell the same of joined arguments. -/
theorem Library.standard_local {f : Function} (hf : f ∈ standard.functions) : f.Local := by
  simp only [standard, List.mem_cons, List.not_mem_nil, or_false] at hf
  rcases hf with rfl | rfl | rfl | rfl | rfl | rfl | rfl | rfl | rfl | rfl | rfl | rfl | rfl |
    rfl | rfl | rfl | rfl
  · refine Function.local_reading fun hh hargs => .bind (agree_itemsArg hh hargs 0) ?_
    intro items items' hitems
    rw [hitems.length_eq]
    exact .ok (.of_plain rfl)
  · refine Function.local_reading fun hh hargs => .bind (agree_entriesArg hh hargs) ?_
    intro d d' hd
    rw [hd.size]
    exact .ok (.of_plain rfl)
  · refine Function.local_reading fun hh hargs => .bind (agree_groupsArg hh hargs) ?_
    intro d d' hd
    rw [count_alike hd]
    exact .ok (.of_plain rfl)
  · exact local_contains
  · refine Function.local_reading fun hh hargs => (agree_textArg hargs 1).bind_same fun key => ?_
    refine .bind (agree_entriesArg hh hargs) ?_
    intro d d' hd
    rw [hd.contains]
    exact .ok (.of_plain rfl)
  · refine Function.local_reading fun hh hargs => (agree_textArg hargs 1).bind_same fun key => ?_
    refine .bind (agree_groupsArg hh hargs) ?_
    intro d d' hd
    rw [hd.contains]
    exact .ok (.of_plain rfl)
  · exact local_toNumber
  · exact local_toText
  · exact local_isNull
  · refine Function.local_reading fun _ hargs => (agree_numberArg hargs 0).bind_same fun _ => ?_
    exact .ok (.of_plain rfl)
  · refine Function.local_reading fun _ hargs => (agree_numberArg hargs 0).bind_same fun _ => ?_
    exact .ok (.of_plain rfl)
  · refine Function.local_reading fun _ hargs => (agree_numberArg hargs 0).bind_same fun _ => ?_
    exact (agree_numberArg hargs 1).bind_same fun _ => .ok (.of_plain rfl)
  · refine Function.local_reading fun _ hargs => (agree_numberArg hargs 0).bind_same fun _ => ?_
    exact (agree_numberArg hargs 1).bind_same fun _ => .ok (.of_plain rfl)
  · refine Function.local_reading fun _ hargs => (agree_textArg hargs 0).bind_same fun _ => ?_
    exact .ok (.of_plain rfl)
  · refine Function.local_reading fun _ hargs => (agree_textArg hargs 0).bind_same fun _ => ?_
    exact .ok (.of_plain rfl)
  · refine Function.local_reading fun _ hargs => (agree_textArg hargs 0).bind_same fun _ => ?_
    exact .ok (.of_plain rfl)
  · exact local_name

/-! ### Expressions -/

namespace Checked

mutual

/-- All functions that the expression calls have the property. -/
def CallsOnly (P : Function → Prop) : Checked → Prop
  | literal _ => True
  | var _ _ => True
  | negate e => e.CallsOnly P
  | not e => e.CallsOnly P
  | arithmetic _ l r => l.CallsOnly P ∧ r.CallsOnly P
  | concat l r => l.CallsOnly P ∧ r.CallsOnly P
  | compare _ l r => l.CallsOnly P ∧ r.CallsOnly P
  | and l r => l.CallsOnly P ∧ r.CallsOnly P
  | or l r => l.CallsOnly P ∧ r.CallsOnly P
  | index t k _ => t.CallsOnly P ∧ k.CallsOnly P
  | call f args => P f ∧ AllCallOnly P args

/-- All functions that the expressions call have the property. -/
def AllCallOnly (P : Function → Prop) : List Checked → Prop
  | [] => True
  | e :: es => e.CallsOnly P ∧ AllCallOnly P es

end

variable {vars vars' : Space}

mutual

/-- Two evaluations of an expression go beside each other. -/
theorem eval_beside : ∀ (e : Checked), e.CallsOnly (· ∈ Library.standard.functions) →
    ∀ {w w' : World}, World.Alike p left right w w' → vars.Alike (p.At w.heap) vars' →
      Beside p left right p.At w w' (e.eval vars) (e.eval vars')
  | literal l, _, w, w', hw, _ => by
    rw [eval, eval]
    refine .pure hw (.of_plain ?_)
    cases l <;> rfl
  | var name type, _, w, w', hw, hvars => by
    rw [eval, eval]
    rcases rel_eq_or (hvars.value? name) with ⟨h₁, h₂⟩ | ⟨_, _, h₁, h₂, hv⟩
    · rw [h₁, h₂]
      exact .throw hw _
    · rw [h₁, h₂]
      exact .pure hw hv
  | negate e, h, w, w', hw, hvars => by
    rw [eval, eval]
    refine .bind (eval_beside e h hw hvars) fun v v' u u' hu _ hv => ?_
    refine .bind_same (Eval.beside_number hu hv) fun n u₁ u₁' hu₁ _ => ?_
    exact .pure hu₁ (.of_plain rfl)
  | not e, h, w, w', hw, hvars => by
    rw [eval, eval]
    refine .bind (eval_beside e h hw hvars) fun v v' u u' hu _ hv => ?_
    refine .bind_same (Eval.beside_boolean hu hv) fun b u₁ u₁' hu₁ _ => ?_
    exact .pure hu₁ (.of_plain rfl)
  | arithmetic op l r, h, w, w', hw, hvars => by
    rw [eval, eval]
    refine .bind (eval_beside l h.1 hw hvars) fun a a' u u' hu hgrows ha => ?_
    refine .bind_same (Eval.beside_number hu ha) fun n u₁ u₁' hu₁ hgrows₁ => ?_
    have hvars₁ := hvars.imp fun _ _ hv => hv.mono (hgrows.trans hgrows₁)
    refine .bind (eval_beside r h.2 hu₁ hvars₁) fun b b' u₂ u₂' hu₂ _ hb => ?_
    refine .bind_same (Eval.beside_number hu₂ hb) fun k u₃ u₃' hu₃ _ => ?_
    cases op.apply n k with
    | ok result => exact .pure hu₃ (.of_plain rfl)
    | error e => exact .throw hu₃ e
  | concat l r, h, w, w', hw, hvars => by
    rw [eval, eval]
    refine .bind (eval_beside l h.1 hw hvars) fun a a' u u' hu hgrows ha => ?_
    have hvars₁ := hvars.imp fun _ _ hv => hv.mono hgrows
    refine .bind (eval_beside r h.2 hu hvars₁) fun b b' u₁ u₁' hu₁ hgrows₁ hb => ?_
    refine .bind_same (Eval.beside_render hu₁ (ha.mono hgrows₁)) fun s u₂ u₂' hu₂ hgrows₂ => ?_
    refine .bind_same (Eval.beside_render hu₂ (hb.mono hgrows₂)) fun t u₃ u₃' hu₃ _ => ?_
    exact .pure hu₃ (.of_plain rfl)
  | compare op l r, h, w, w', hw, hvars => by
    rw [eval, eval]
    refine .bind (eval_beside l h.1 hw hvars) fun a a' u u' hu hgrows ha => ?_
    have hvars₁ := hvars.imp fun _ _ hv => hv.mono hgrows
    refine .bind (eval_beside r h.2 hu hvars₁) fun b b' u₁ u₁' hu₁ hgrows₁ hb => ?_
    refine .bind_same (op.beside_apply hu₁ (ha.mono hgrows₁) hb) fun c u₂ u₂' hu₂ _ => ?_
    exact .pure hu₂ (.of_plain rfl)
  | and l r, h, w, w', hw, hvars => by
    rw [eval, eval]
    refine .bind (eval_beside l h.1 hw hvars) fun a a' u u' hu hgrows ha => ?_
    refine .bind_same (Eval.beside_boolean hu ha) fun b u₁ u₁' hu₁ hgrows₁ => ?_
    cases b with
    | false => exact .pure hu₁ (.of_plain rfl)
    | true =>
      have hvars₁ := hvars.imp fun _ _ hv => hv.mono (hgrows.trans hgrows₁)
      refine .bind (eval_beside r h.2 hu₁ hvars₁) fun c c' u₂ u₂' hu₂ _ hc => ?_
      refine .bind_same (Eval.beside_boolean hu₂ hc) fun d u₃ u₃' hu₃ _ => ?_
      exact .pure hu₃ (.of_plain rfl)
  | or l r, h, w, w', hw, hvars => by
    rw [eval, eval]
    refine .bind (eval_beside l h.1 hw hvars) fun a a' u u' hu hgrows ha => ?_
    refine .bind_same (Eval.beside_boolean hu ha) fun b u₁ u₁' hu₁ hgrows₁ => ?_
    cases b with
    | true => exact .pure hu₁ (.of_plain rfl)
    | false =>
      have hvars₁ := hvars.imp fun _ _ hv => hv.mono (hgrows.trans hgrows₁)
      refine .bind (eval_beside r h.2 hu₁ hvars₁) fun c c' u₂ u₂' hu₂ _ hc => ?_
      refine .bind_same (Eval.beside_boolean hu₂ hc) fun d u₃ u₃' hu₃ _ => ?_
      exact .pure hu₃ (.of_plain rfl)
  | index t k type, h, w, w', hw, hvars => by
    rw [eval, eval]
    refine .bind (eval_beside t h.1 hw hvars) fun a a' u u' hu hgrows ha => ?_
    have hvars₁ := hvars.imp fun _ _ hv => hv.mono hgrows
    refine .bind (eval_beside k h.2 hu hvars₁) fun b b' u₁ u₁' hu₁ hgrows₁ hb => ?_
    exact Value.beside_at hu₁ (ha.mono hgrows₁) hb
  | call f args, h, w, w', hw, hvars => by
    rw [eval, eval]
    refine .bind (evalAll_beside args h.2 hw hvars) fun vs vs' u u' hu _ hvs => ?_
    exact Eval.beside_call (Library.standard_local h.1) hu hvs

theorem evalAll_beside : ∀ (es : List Checked),
    AllCallOnly (· ∈ Library.standard.functions) es →
    ∀ {w w' : World}, World.Alike p left right w w' → vars.Alike (p.At w.heap) vars' →
      Beside p left right (fun h => List.Forall₂ (p.At h)) w w' (evalAll vars es) (evalAll vars' es)
  | [], _, w, w', hw, _ => by
    rw [evalAll, evalAll]
    exact .pure hw .nil
  | e :: es, h, w, w', hw, hvars => by
    rw [evalAll, evalAll]
    refine .bind (eval_beside e h.1 hw hvars) fun v v' u u' hu hgrows hv => ?_
    have hvars₁ := hvars.imp fun _ _ hx => hx.mono hgrows
    refine .bind (evalAll_beside es h.2 hu hvars₁) fun vs vs' u₁ u₁' hu₁ hgrows₁ hvs => ?_
    exact .pure hu₁ (.cons (hv.mono hgrows₁) hvs)

end

end Checked

end WorldScript
