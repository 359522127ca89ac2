import Mathlib.Data.List.Forall2
import WorldScript.Library.Standard
import WorldScript.Proofs.Expr.Wp
import WorldScript.Proofs.Heap.Suits
import WorldScript.Proofs.Number.Places
import WorldScript.Proofs.Space.Types

/-! # Expressions give values that suit their types

The evaluation of a typed expression puts nothing into a cell that was there before, and its value
suits its type, as long as the values of the variables suit theirs. Functions of the library have to
keep to their types; those of the standard library do.

* `Library.standard_sound`: the functions of the standard library keep to their types.
* `Space.Supplies`: what is needed of the variables.
* `Checked.eval_yields`: the statement for one expression. -/

namespace WorldScript

variable {fits : BitVec 14 → Value → Prop}

/-! ### Computations that put nothing into old cells -/

namespace Eval

variable {α β : Type} {Q : α → Heap → Prop} {w : World}

/-- The computation puts nothing into an old cell, and its value, if it has one, satisfies `Q`. -/
def Yields (x : Eval α) (Q : α → Heap → Prop) (w : World) : Prop :=
  wp x (fun r w' => w.heap.Keeps w'.heap ∧ ∀ a, r = .ok a → Q a w'.heap) w

theorem Yields.pure {a : α} (h : Q a w.heap) : Yields (pure a) Q w :=
  ⟨.refl _, fun _ heq => Except.ok.inj heq ▸ h⟩

theorem Yields.throw (e : EvalError) : Yields (throw e) Q w := ⟨.refl _, fun _ heq => by cases heq⟩

theorem Yields.bind {x : Eval α} {f : α → Eval β} {R : β → Heap → Prop} (hx : Yields x Q w)
    (hf : ∀ a w', w.heap.Keeps w'.heap → Q a w'.heap → Yields (f a) R w') :
    Yields (x >>= f) R w := by
  refine wp_bind_of hx ?_ ?_
  · rintro a w' ⟨hkeeps, hQ⟩
    refine wp_mono (hf a w' hkeeps (hQ a rfl)) ?_
    rintro r w'' ⟨hmore, hR⟩
    exact ⟨hkeeps.trans hmore, hR⟩
  · rintro e w' ⟨hkeeps, -⟩
    exact ⟨hkeeps, fun _ heq => by cases heq⟩

theorem Yields.get : Yields get (fun a h => a = w ∧ h = w.heap) w :=
  ⟨.refl _, fun _ heq => ⟨(Except.ok.inj heq).symm, rfl⟩⟩

/-- Nothing is said about the value. -/
abbrev Quiet (x : Eval α) (w : World) : Prop := Yields x (fun _ _ => True) w

theorem quiet_render (v : Value) : Quiet (render v) w := .bind .get fun _ _ _ _ => .pure trivial

theorem quiet_number (v : Value) : Quiet (number v) w := by
  unfold number
  split
  · exact .pure trivial
  · exact .bind (quiet_render v) fun _ _ _ _ => .throw _

theorem quiet_boolean (v : Value) : Quiet (boolean v) w := by
  unfold boolean
  split
  · exact .pure trivial
  · exact .bind (quiet_render v) fun _ _ _ _ => .throw _

theorem yields_newList {t : Ty} (ht : t.shape = 1) {items : List Value}
    (hitems : ∀ x ∈ items, fits t.kinds x) :
    Yields (newList items) (fun v h => Suits fits h t v) w :=
  ⟨w.heap.keeps_newList items, fun _ heq =>
    Except.ok.inj heq ▸ Coherent.suits_newList ht hitems⟩

end Eval

open Eval (Yields Quiet quiet_render quiet_number quiet_boolean yields_newList)

theorem Comparison.quiet_apply (op : Comparison) (a b : Value) {w : World} :
    Quiet (op.apply a b) w := by
  refine .bind .get fun _ w' _ _ => ?_
  cases op
  case equal | unequal => exact .pure trivial
  all_goals
    cases a.order? b with
    | some o => exact .pure trivial
    | none => exact .throw _

/-! ### Indexing -/

theorem mem_of_placeIn? {items : List Value} {n : Float} {i : Nat}
    (h : Number.placeIn? n items.length = some i) (v : Value) : items.getD i v ∈ items := by
  have hi : i < items.length := Number.lt_of_placeIn? h
  rw [List.getD_eq_getElem?_getD, List.getElem?_eq_getElem hi]
  exact List.getElem_mem hi

theorem Dict.mem_of_find? {α : Type} {d : Dict α} {key : String} {a : α}
    (h : d.find? key = some a) : a ∈ d.entries.map (·.2) :=
  List.mem_map.mpr ⟨(key, a), mem_of_lookup h, rfl⟩

theorem Dict.mem_of_mem_group {d : Dict (List Value)} {key : String} {x : Value}
    (h : x ∈ (d.find? key).getD []) : x ∈ d.entries.flatMap (·.2) := by
  cases hfind : d.find? key with
  | none =>
    rw [hfind] at h
    cases h
  | some items =>
    rw [hfind] at h
    exact List.mem_flatMap.mpr ⟨(key, items), mem_of_lookup hfind, h⟩

/-- Indexing leaves the kinds as they are; of the shape it leaves nothing, or a sequence in the case
of groups. -/
theorem Ty.indexing?_eq_some {t k type : Ty} (ht : t.Simple)
    (h : t.indexing? = some (k, .ok type)) :
    type.kinds = t.kinds ∧ type.shape = if t.shape = 4 then 1 else 0 := by
  unfold indexing? at h
  split at h
  · rename_i hcollection
    simp only [Option.some.injEq, Prod.mk.injEq, strip_eq_ok_iff] at h
    obtain ⟨-, -, rfl⟩ := h
    have hshape := ht.contains_collection.mp hcollection
    simp [collection, hshape]
  · split at h
    · rename_i hdictionary
      simp only [Option.some.injEq, Prod.mk.injEq, strip_eq_ok_iff] at h
      obtain ⟨-, -, rfl⟩ := h
      have hshape := ht.contains_dictionary.mp hdictionary
      simp [dictionary, hshape]
    · split at h
      · rename_i hgroups
        have hshape := ht.contains_groups.mp hgroups
        rw [strip, if_pos hgroups] at h
        cases h
        simp [groups, collection, hshape]
      · cases h

/-- What is found under a key suits the type that indexing gives. -/
theorem Value.yields_at (hf : Coherent fits) {target : Value} (key : Value) {t k type : Ty}
    {w : World} (htarget : Suits fits w.heap t target) (hindex : t.indexing? = some (k, .ok type)) :
    Yields (target.at key) (fun v h => Suits fits h type v) w := by
  obtain ⟨hkinds, hshape⟩ := Ty.indexing?_eq_some htarget.simple hindex
  rw [← htarget.shape] at hshape
  refine .bind .get ?_
  rintro _ w' - ⟨rfl, hheap⟩
  rw [← hheap] at htarget
  split
  · dsimp only
    split
    · exact .throw _
    · rename_i hplace
      refine .pure (hf.suits_plain hshape ?_)
      rw [hkinds]
      rw [Number.not_isOutside_iff] at hplace
      exact htarget.elements _ (hheap ▸ mem_of_placeIn? hplace _)
  · dsimp only
    split
    · rename_i v hfind
      refine .pure (hf.suits_plain hshape ?_)
      rw [hkinds]
      exact htarget.elements _ (hheap ▸ Dict.mem_of_find? hfind)
    · exact .throw _
  · rename_i cell s
    refine yields_newList hshape ?_
    intro x hx
    rw [hkinds]
    refine htarget.elements x ?_
    rw [hheap]
    exact Dict.mem_of_mem_group hx
  · exact .throw _

/-! ### Functions -/

/-- The function puts nothing into an old cell, and what it gives suits its type. -/
def Function.Sound (fits : BitVec 14 → Value → Prop) (f : Function) : Prop :=
  ∀ args w, w.heap.Keeps (f.run args w).2.heap ∧
    ∀ v, (f.run args w).1 = .ok v → Suits fits (f.run args w).2.heap f.returns v

/-- All functions of the library are of this sort. -/
def Library.Sound (fits : BitVec 14 → Value → Prop) (lib : Library) : Prop :=
  ∀ f ∈ lib.functions, f.Sound fits

theorem Eval.yields_call {f : Function} (hsound : f.Sound fits) (args : List Value) {w : World} :
    Yields (call f args) (fun v h => Suits fits h f.returns v) w := by
  obtain ⟨hkeeps, hvalue⟩ := hsound args w
  unfold Yields call
  simp only [wp_bind, wp_get, wp_set]
  split
  · rename_i v hanswer
    refine ⟨hkeeps, ?_⟩
    rintro v' ⟨⟩
    exact hvalue v hanswer
  · refine ⟨hkeeps, ?_⟩
    rintro v' ⟨⟩

/-- Whatever the answer of a call is, it satisfies `P`. -/
def Gives (x : Except CallError Value) (P : Value → Prop) : Prop := ∀ v, x = .ok v → P v

namespace Gives

variable {P : Value → Prop}

theorem pure {v : Value} (h : P v) : Gives (pure v) P := fun _ heq => Except.ok.inj heq ▸ h

theorem error (e : CallError) : Gives (.error e) P := fun _ heq => by cases heq

theorem bind {α : Type} {x : Except CallError α} {f : α → Except CallError Value}
    (hf : ∀ a, Gives (f a) P) : Gives (x >>= f) P := by
  intro v hv
  obtain ⟨a, -, hv⟩ := bind_eq_ok_iff.mp hv
  exact hf a v hv

end Gives

namespace Function

variable {name : String} {parameters : List Ty} {returns : Ty}
  {read : Heap → List Value → Except CallError Value}

/-- A function that only reads is judged by its values. -/
theorem sound_reading (h : ∀ heap args, Gives (read heap args) fun v => Suits fits heap returns v) :
    (reading name parameters returns read).Sound fits :=
  fun args w => ⟨.refl _, h w.heap args⟩

variable (hf : Coherent fits)

include hf

theorem sound_number (h : ∀ heap args, Gives (read heap args) fun v => ∃ n, v = .number n) :
    (reading name parameters .number read).Sound fits := by
  refine sound_reading ?_
  intro heap args v hv
  obtain ⟨n, rfl⟩ := h heap args v hv
  exact hf.suits_number n

theorem sound_text (h : ∀ heap args, Gives (read heap args) fun v => ∃ s, v = .text s) :
    (reading name parameters .text read).Sound fits := by
  refine sound_reading ?_
  intro heap args v hv
  obtain ⟨s, rfl⟩ := h heap args v hv
  exact hf.suits_text s

theorem sound_boolean (h : ∀ heap args, Gives (read heap args) fun v => ∃ b, v = .boolean b) :
    (reading name parameters .boolean read).Sound fits := by
  refine sound_reading ?_
  intro heap args v hv
  obtain ⟨b, rfl⟩ := h heap args v hv
  exact hf.suits_boolean b

end Function

namespace Library.Standard

variable (hf : Coherent fits)

include hf

theorem contains_sound : contains.Sound fits := by
  refine Function.sound_boolean hf fun heap args => .bind fun items => ?_
  split
  · exact .pure ⟨_, rfl⟩
  · exact .error _

theorem toNumber_sound : toNumber.Sound fits := by
  refine Function.sound_number hf fun heap args => .bind fun s => ?_
  split
  · exact .pure ⟨_, rfl⟩
  · exact .error _

theorem toText_sound : toText.Sound fits := by
  refine Function.sound_text hf fun heap args => ?_
  split
  · exact .pure ⟨_, rfl⟩
  · exact .error _

theorem isNull_sound : isNull.Sound fits := by
  refine Function.sound_boolean hf fun heap args => ?_
  split <;> exact .pure ⟨_, rfl⟩

theorem name_sound : name.Sound fits := by
  refine Function.sound_text hf fun heap args => ?_
  split
  · exact .pure ⟨_, rfl⟩
  all_goals exact .error _

end Library.Standard

/-- The functions of the standard library only read, and give what they say. -/
theorem Library.standard_coherent (hf : Coherent fits) : standard.Sound fits := by
  intro f hmem
  simp only [standard, List.mem_cons, List.not_mem_nil, or_false] at hmem
  rcases hmem with rfl | rfl | rfl | rfl | rfl | rfl | rfl | rfl | rfl | rfl | rfl | rfl | rfl |
    rfl | rfl | rfl | rfl
  · exact Function.sound_number hf fun _ _ => .bind fun _ => .pure ⟨_, rfl⟩
  · exact Function.sound_number hf fun _ _ => .bind fun _ => .pure ⟨_, rfl⟩
  · exact Function.sound_number hf fun _ _ => .bind fun _ => .pure ⟨_, rfl⟩
  · exact Standard.contains_sound hf
  · exact Function.sound_boolean hf fun _ _ => .bind fun _ => .bind fun _ => .pure ⟨_, rfl⟩
  · exact Function.sound_boolean hf fun _ _ => .bind fun _ => .bind fun _ => .pure ⟨_, rfl⟩
  · exact Standard.toNumber_sound hf
  · exact Standard.toText_sound hf
  · exact Standard.isNull_sound hf
  · exact Function.sound_number hf fun _ _ => .bind fun _ => .pure ⟨_, rfl⟩
  · exact Function.sound_number hf fun _ _ => .bind fun _ => .pure ⟨_, rfl⟩
  · exact Function.sound_number hf fun _ _ => .bind fun _ => .bind fun _ => .pure ⟨_, rfl⟩
  · exact Function.sound_number hf fun _ _ => .bind fun _ => .bind fun _ => .pure ⟨_, rfl⟩
  · exact Function.sound_text hf fun _ _ => .bind fun _ => .pure ⟨_, rfl⟩
  · exact Function.sound_text hf fun _ _ => .bind fun _ => .pure ⟨_, rfl⟩
  · exact Function.sound_number hf fun _ _ => .bind fun _ => .pure ⟨_, rfl⟩
  · exact Standard.name_sound hf

theorem Library.standard_sound (hf : Fitting fits) : standard.Sound fits :=
  standard_coherent hf.toCoherent

/-! ### Expressions -/

/-- The values of the visible variables suit their types. -/
def Space.Suits (fits : BitVec 14 → Value → Prop) (h : Heap) (vars : Space) : Prop :=
  ∀ name var, vars.get? name = some var → WorldScript.Suits fits h var.type var.value

/-- Every name of the scope has a value, which suits the type that the scope gives it. -/
def Space.Supplies (fits : BitVec 14 → Value → Prop) (h : Heap) (scope : Scope) (vars : Space) :
    Prop :=
  ∀ name type, scope.lookup name = some type →
    ∃ v, vars.value? name = some v ∧ WorldScript.Suits fits h type v

theorem Space.Suits.supplies {h : Heap} {vars : Space} (hvars : vars.Suits fits h)
    {slot : Option Ty} {scope : Scope} (hagrees : Space.Agrees slot scope vars) :
    vars.Supplies fits h scope := by
  intro name type hlookup
  obtain ⟨v, hget⟩ := Space.get?_of_type? (hagrees.type?_of_lookup hlookup)
  exact ⟨v, by rw [value?, hget]; rfl, hvars name _ hget⟩

theorem Space.Supplies.keeps {h h' : Heap} {scope : Scope} {vars : Space}
    (hvars : vars.Supplies fits h scope) (hkeeps : h.Keeps h') : vars.Supplies fits h' scope := by
  intro name type hlookup
  obtain ⟨v, hvalue, hsuits⟩ := hvars name type hlookup
  exact ⟨v, hvalue, hsuits.keeps hkeeps⟩

namespace Checked

variable {lib : Library} {scope : Scope} {vars : Space}

mutual

/-- The value of a typed expression suits its type. -/
theorem eval_yields (hf : Coherent fits) (hlib : lib.Sound fits) :
    ∀ (e : Checked), e.Typed lib scope → ∀ w, vars.Supplies fits w.heap scope →
      Yields (e.eval vars) (fun v h => Suits fits h e.type v) w
  | literal l, _, w, _ => by
    rw [eval]
    refine .pure ?_
    cases l with
    | number n => exact (hf.suits_number n).congr rfl rfl
    | text s => exact (hf.suits_text s).congr rfl rfl
    | boolean b => exact (hf.suits_boolean b).congr rfl rfl
  | var name type, h, w, hvars => by
    obtain ⟨v, hvalue, hsuits⟩ := hvars name type h
    rw [eval, hvalue]
    exact .pure hsuits
  | negate e, h, w, hvars => by
    rw [eval]
    exact .bind (eval_yields hf hlib e h.1 w hvars) fun v _ _ _ =>
      .bind (quiet_number v) fun n _ _ _ => .pure (hf.suits_number (-n))
  | not e, h, w, hvars => by
    rw [eval]
    exact .bind (eval_yields hf hlib e h.1 w hvars) fun v _ _ _ =>
      .bind (quiet_boolean v) fun b _ _ _ => .pure (hf.suits_boolean (!b))
  | arithmetic op l r, h, w, hvars => by
    rw [eval]
    refine .bind (eval_yields hf hlib l h.1 w hvars) fun a w₁ hk₁ _ =>
      .bind (quiet_number a) fun a' w₂ hk₂ _ =>
        .bind (eval_yields hf hlib r h.2.1 w₂ (hvars.keeps (hk₁.trans hk₂)))
          fun b _ _ _ => .bind (quiet_number b) fun b' _ _ _ => ?_
    split
    · exact .pure (hf.suits_number _)
    · exact .throw _
  | concat l r, h, w, hvars => by
    rw [eval]
    exact .bind (eval_yields hf hlib l h.1 w hvars) fun a w₁ hk₁ _ =>
      .bind (eval_yields hf hlib r h.2.1 w₁ (hvars.keeps hk₁)) fun b _ _ _ =>
        .bind (quiet_render a) fun _ _ _ _ => .bind (quiet_render b) fun _ _ _ _ =>
          .pure (hf.suits_text _)
  | compare op l r, h, w, hvars => by
    rw [eval]
    exact .bind (eval_yields hf hlib l h.1 w hvars) fun a w₁ hk₁ _ =>
      .bind (eval_yields hf hlib r h.2.1 w₁ (hvars.keeps hk₁)) fun b _ _ _ =>
        .bind (op.quiet_apply a b) fun c _ _ _ => .pure (hf.suits_boolean c)
  | and l r, h, w, hvars => by
    rw [eval]
    refine .bind (eval_yields hf hlib l h.1 w hvars) fun a w₁ hk₁ _ =>
      .bind (quiet_boolean a) fun b w₂ hk₂ _ => ?_
    cases b with
    | false => exact .pure (hf.suits_boolean false)
    | true =>
      exact .bind (eval_yields hf hlib r h.2.1 w₂ (hvars.keeps (hk₁.trans hk₂)))
        fun c _ _ _ => .bind (quiet_boolean c) fun d _ _ _ => .pure (hf.suits_boolean d)
  | or l r, h, w, hvars => by
    rw [eval]
    refine .bind (eval_yields hf hlib l h.1 w hvars) fun a w₁ hk₁ _ =>
      .bind (quiet_boolean a) fun b w₂ hk₂ _ => ?_
    cases b with
    | true => exact .pure (hf.suits_boolean true)
    | false =>
      exact .bind (eval_yields hf hlib r h.2.1 w₂ (hvars.keeps (hk₁.trans hk₂)))
        fun c _ _ _ => .bind (quiet_boolean c) fun d _ _ _ => .pure (hf.suits_boolean d)
  | index t k type, h, w, hvars => by
    obtain ⟨ht, hk, key, hindex, -⟩ := h
    rw [eval]
    exact .bind (eval_yields hf hlib t ht w hvars) fun a w₁ hk₁ ha =>
      .bind (eval_yields hf hlib k hk w₁ (hvars.keeps hk₁)) fun b w₂ hk₂ _ =>
        Value.yields_at hf b (ha.keeps hk₂).unmarked hindex
  | call f args, h, w, hvars => by
    obtain ⟨hargs, hmem, -⟩ := h
    rw [eval]
    exact .bind (evalAll_yields hf hlib args hargs w hvars) fun vs _ _ _ =>
      Eval.yields_call (hlib f hmem) vs

theorem evalAll_yields (hf : Coherent fits) (hlib : lib.Sound fits) :
    ∀ (es : List Checked), AllTyped lib scope es → ∀ w, vars.Supplies fits w.heap scope →
      Yields (evalAll vars es) (fun vs h => es.Forall₂ (fun e v => Suits fits h e.type v) vs) w
  | [], _, w, _ => by
    rw [evalAll]
    exact .pure .nil
  | e :: es, h, w, hvars => by
    rw [evalAll]
    exact .bind (eval_yields hf hlib e h.1 w hvars) fun _ w₁ hk₁ hv =>
      .bind (evalAll_yields hf hlib es h.2 w₁ (hvars.keeps hk₁)) fun _ _ hk₂ hvs =>
        .pure (.cons (hv.keeps hk₂) hvs)

end

end Checked

end WorldScript
