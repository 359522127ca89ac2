import WorldScript.Proofs.Program.Conforms

/-! # Accepted expressions fail for their data only

The checker promises that an expression is evaluated without surprise: if every name of the scope
has a value of its type, then the expression gives a value of its type, or what is wrong is wrong
with the data, such as a division by zero or a key that is not there. It is never that a name has
no value, that a number was wanted and something else was there, or that a function was given what
it does not take.

That the value is of the type is known (`Checked.eval_yields`). Here it is shown that whatever is
handed to an operator, an index or a function has the form that is needed.

* `Value.Proper`: plain values of their kinds, where entities are of kinds of entities.
* `DataFault`: the errors that are left.
* `Library.standard_safe`: the functions of the standard library, given what they take.
* `Checked.eval_safe`: the statement for typed expressions, by induction on them.
* `Tree.run_of_check`: accepted expressions. -/

namespace WorldScript

/-! ### Numbers without order -/

namespace Number

open Float.Model (UnpackedFloat)

theorem compare_swap (a b : UnpackedFloat) : b.compare a = (a.compare b).map Ordering.swap := by
  cases a with
  | notANumber => cases b <;> rfl
  | infinity s =>
    cases b with
    | infinity s' => cases s <;> cases s' <;> rfl
    | _ => cases s <;> rfl
  | zero s =>
    cases b with
    | infinity s' => cases s' <;> rfl
    | finite s' m e h => cases s' <;> rfl
    | _ => rfl
  | finite s m e h =>
    cases b with
    | notANumber => cases s <;> rfl
    | infinity s' => cases s <;> cases s' <;> rfl
    | zero s' => cases s <;> rfl
    | finite s' m' e' h' =>
      have hswap : (compare e' e).then (compare m' m) =
          ((compare e e').then (compare m m')).swap := by
        rw [Ordering.swap_then, Int.compare_swap, Nat.compare_swap]
      cases s <;> cases s'
      · exact congrArg (fun o => some o.swap) hswap
      · rfl
      · rfl
      · exact congrArg some hswap

theorem isNaN_of_compare {a b : UnpackedFloat} (h : a.compare b = none) :
    a.isNaN = true ∨ b.isNaN = true := by
  cases a with
  | notANumber => exact Or.inl rfl
  | infinity s =>
    cases b with
    | notANumber => exact Or.inr rfl
    | infinity s' => cases h
    | _ => cases s <;> cases h
  | zero s =>
    cases b with
    | notANumber => exact Or.inr rfl
    | zero s' => cases h
    | infinity s' => cases s' <;> cases h
    | finite s' m e h' => cases s' <;> cases h
  | finite s m e h' =>
    cases b with
    | notANumber => exact Or.inr rfl
    | zero s' => cases s <;> cases h
    | infinity s' => cases s' <;> cases h
    | finite s' m' e' h'' => cases s <;> cases s' <;> cases h

/-- Of two numbers that are not equal and of which neither is the smaller, one is not a number. -/
theorem isNaN_of_unordered {a b : Float} (hlt : ¬ a < b) (heq : ¬ (a == b) = true)
    (hgt : ¬ b < a) : a.isNaN = true ∨ b.isNaN = true := by
  refine isNaN_of_compare ?_
  cases h : a.toModel.unpack.compare b.toModel.unpack with
  | none => rfl
  | some o =>
    cases o with
    | lt => exact absurd (decide_eq_true (p := a.toModel < b.toModel) (beq_iff_eq.mpr h)) hlt
    | eq => exact absurd (beq_iff_eq.mpr h) heq
    | gt =>
      have hswap := compare_swap a.toModel.unpack b.toModel.unpack
      rw [h] at hswap
      exact absurd (decide_eq_true (p := b.toModel < a.toModel) (beq_iff_eq.mpr hswap)) hgt

end Number

/-! ### Values of their kinds -/

/-- The kinds of entities: whatever is not nothing, a number, a text or a truth value. -/
def Ty.entities : Ty := ⟨0x3ff0, 0, 0⟩

namespace Value

/-- An entity has a kind, and only kinds of entities. -/
def Genuine : Value → Prop
  | entity e => e.kind.kinds ≠ 0 ∧ e.kind.kinds &&& ~~~Ty.entities.kinds = 0
  | _ => True

/-- The value is plain and of one of the kinds; if it is an entity, it is of kinds of entities. -/
def Proper (kinds : BitVec 14) (v : Value) : Prop := v.OfKinds kinds ∧ v.Genuine

theorem proper_coherent : Coherent Proper where
  plain h := kinds_fitting.plain h.1
  number n := ⟨kinds_fitting.number n, trivial⟩
  text s := ⟨kinds_fitting.text s, trivial⟩
  boolean b := ⟨kinds_fitting.boolean b, trivial⟩
  null hnumber htext hboolean := ⟨kinds_fitting.null hnumber htext hboolean, trivial⟩
  anyNumber b h := ⟨kinds_fitting.anyNumber b h.1, trivial⟩
  anyText b h := ⟨kinds_fitting.anyText b h.1, trivial⟩
  widen haccepts h := ⟨kinds_fitting.widen haccepts h.1, h.2⟩

variable {kinds : BitVec 14} {v : Value}

/-- Entities are only where kinds of entities are. -/
theorem Proper.entity {e : Entity} (h : Proper kinds (.entity e)) :
    kinds &&& Ty.entities.kinds ≠ 0 := by
  obtain ⟨hsub, hne, hentities⟩ := h
  refine and_ne_of_and_not hsub ?_
  rw [and_eq_of_and_not hentities]
  exact hne

theorem Proper.number (h : Proper Ty.number.kinds v) : ∃ n, v = .number n := by
  cases v with
  | number n => exact ⟨n, rfl⟩
  | null => exact absurd rfl h.1.1
  | entity e => exact absurd rfl h.entity
  | text | boolean => exact absurd rfl h.1
  | collection | dictionary | groups => exact h.1.elim

theorem Proper.text (h : Proper Ty.text.kinds v) : ∃ s, v = .text s := by
  cases v with
  | text s => exact ⟨s, rfl⟩
  | null => exact absurd rfl h.1.2.1
  | entity e => exact absurd rfl h.entity
  | number | boolean => exact absurd rfl h.1
  | collection | dictionary | groups => exact h.1.elim

theorem Proper.boolean (h : Proper Ty.boolean.kinds v) : ∃ b, v = .boolean b := by
  cases v with
  | boolean b => exact ⟨b, rfl⟩
  | null => exact absurd rfl h.1.2.2
  | entity e => exact absurd rfl h.entity
  | number | text => exact absurd rfl h.1
  | collection | dictionary | groups => exact h.1.elim

end Value

namespace Suits

variable {h : Heap} {t : Ty} {v : Value} (hs : Suits Value.Proper h t v)

include hs

theorem number (ht : t.unmarked = .number) : ∃ n, v = .number n := by
  have hs' := hs.unmarked
  rw [ht] at hs'
  exact (hs'.plain rfl).number

theorem text (ht : t.unmarked = .text) : ∃ s, v = .text s := by
  have hs' := hs.unmarked
  rw [ht] at hs'
  exact (hs'.plain rfl).text

theorem boolean (ht : t.unmarked = .boolean) : ∃ b, v = .boolean b := by
  have hs' := hs.unmarked
  rw [ht] at hs'
  exact (hs'.plain rfl).boolean

theorem collection (ht : t.shape = 1) : ∃ cell, v = .collection cell := by
  have hshape := hs.shape.trans ht
  cases v with
  | collection cell => exact ⟨cell, rfl⟩
  | _ => cases hshape

theorem dictionary (ht : t.shape = 2) : ∃ cell, v = .dictionary cell := by
  have hshape := hs.shape.trans ht
  cases v with
  | dictionary cell => exact ⟨cell, rfl⟩
  | _ => cases hshape

theorem groups (ht : t.shape = 4) : ∃ cell, v = .groups cell := by
  have hshape := hs.shape.trans ht
  cases v with
  | groups cell => exact ⟨cell, rfl⟩
  | _ => cases hshape

end Suits

/-! ### Errors of data -/

/-- What can be wrong with data: a number is divided by zero; a number that is not one has no order;
there is nothing at an index or under a key; a text is not that of a number; or the name of nothing
is wanted. -/
inductive DataFault : EvalError → Prop
  | divisionByZero : DataFault .divisionByZero
  | moduloByZero : DataFault .moduloByZero
  | unordered {a b : Float} : a.isNaN = true ∨ b.isNaN = true →
    DataFault (.unordered (Number.shown a) (Number.shown b))
  | outOfRange {n : Float} {size : Nat} : Number.placeIn? n size = none →
    DataFault (.outOfRange n size)
  | missingKey (key : String) : DataFault (.missingKey key)
  | notNumeric {s : String} : Number.read? (Text.trim s.toList) = none →
    DataFault (.call (.notNumeric s))
  | nullReference : DataFault (.call .nullReference)

namespace Eval

variable {α β : Type} {w : World}

/-- If the computation fails, it is for its data. -/
def Safe (x : Eval α) (w : World) : Prop := wp x (fun r _ => ∀ e, r = .error e → DataFault e) w

theorem Safe.pure (a : α) : Safe (pure a) w := by
  rintro e ⟨⟩

theorem Safe.throw {e : EvalError} (h : DataFault e) : Safe (throw e : Eval α) w := by
  rintro e' ⟨⟩
  exact h

/-- What comes after a computation has to be safe for the values that this yields. -/
theorem Safe.bind {x : Eval α} {f : α → Eval β} {Q : α → Heap → Prop} (hx : Safe x w)
    (hyields : Yields x Q w)
    (hf : ∀ a w', w.heap.Keeps w'.heap → Q a w'.heap → Safe (f a) w') : Safe (x >>= f) w := by
  have hboth : wp x (fun r w' => (∀ e, r = .error e → DataFault e) ∧
      w.heap.Keeps w'.heap ∧ ∀ a, r = .ok a → Q a w'.heap) w := ⟨hx, hyields⟩
  refine wp_bind_of hboth ?_ ?_
  · rintro a w' ⟨-, hkeeps, hQ⟩
    exact hf a w' hkeeps (hQ a rfl)
  · rintro e w' ⟨herror, -⟩
    rintro e' ⟨⟩
    exact herror e rfl

theorem Safe.get : Safe (get : Eval World) w := by
  rintro e ⟨⟩

theorem Safe.newList (items : List Value) : Safe (newList items) w := by
  rintro e ⟨⟩

theorem Safe.render {v : Value} {f : String → Eval β} (hf : ∀ s, Safe (f s) w) :
    Safe (render v >>= f) w := hf _

/-- The number of a number is at hand. -/
theorem Safe.number {v : Value} (h : ∃ n, v = .number n) {f : Float → Eval β}
    (hf : ∀ n, Safe (f n) w) : Safe (number v >>= f) w := by
  obtain ⟨n, rfl⟩ := h
  exact hf n

theorem Safe.boolean {v : Value} (h : ∃ b, v = .boolean b) {f : Bool → Eval β}
    (hf : ∀ b, Safe (f b) w) : Safe (boolean v >>= f) w := by
  obtain ⟨b, rfl⟩ := h
  exact hf b

end Eval

open Eval (Yields Safe)

/-! ### Operators -/

theorem Arithmetic.dataFault_of_apply {op : Arithmetic} {a b : Float} {e : EvalError}
    (h : op.apply a b = .error e) : DataFault e := by
  cases op with
  | add | sub | mul => cases h
  | div =>
    simp only [apply] at h
    split at h
    · cases h
      exact .divisionByZero
    · cases h
  | rem =>
    simp only [apply] at h
    split at h
    · cases h
      exact .moduloByZero
    · cases h

/-- Two texts have an order. Two numbers have one, unless one of them is not a number. -/
theorem Value.order?_eq_none {h h' : Heap} {l r : Ty} {a b : Value}
    (htypes : (l = .number ∧ r = .number) ∨ (l = .text ∧ r = .text))
    (ha : Suits Proper h l a) (hb : Suits Proper h' r b) (horder : a.order? b = none) :
    ∃ x y, a = .number x ∧ b = .number y ∧ (x.isNaN = true ∨ y.isNaN = true) := by
  rcases htypes with ⟨rfl, rfl⟩ | ⟨rfl, rfl⟩
  · obtain ⟨x, rfl⟩ := ha.number rfl
    obtain ⟨y, rfl⟩ := hb.number rfl
    refine ⟨x, y, rfl, rfl, ?_⟩
    simp only [order?] at horder
    split at horder
    · cases horder
    · rename_i hlt
      split at horder
      · cases horder
      · rename_i heq
        split at horder
        · cases horder
        · rename_i hgt
          exact Number.isNaN_of_unordered hlt heq hgt
  · obtain ⟨x, rfl⟩ := ha.text rfl
    obtain ⟨y, rfl⟩ := hb.text rfl
    cases horder

theorem Comparison.safe_apply {op : Comparison} {h h' : Heap} {l r : Ty} {a b : Value} {w : World}
    (htakes : op.Takes l r) (ha : Suits Value.Proper h l a) (hb : Suits Value.Proper h' r b) :
    Safe (op.apply a b) w := by
  refine .bind .get .get fun _ w' _ _ => ?_
  cases op
  case equal | unequal => exact .pure _
  all_goals
    cases horder : a.order? b with
    | some o => exact .pure _
    | none =>
      obtain ⟨x, y, rfl, rfl, hnan⟩ := Value.order?_eq_none htakes ha hb horder
      exact .throw (.unordered hnan)

/-! ### Indexing -/

/-- The key of a collection is a number, that of a dictionary and of groups a text. -/
theorem Ty.key_of_indexing? {t k : Ty} {type : Except StripFault Ty} (ht : t.Simple)
    (h : t.indexing? = some (k, type)) :
    (t.shape = 1 ∧ k = .number) ∨ (t.shape = 2 ∧ k = .text) ∨ (t.shape = 4 ∧ k = .text) := by
  unfold indexing? at h
  split at h
  · rename_i hcollection
    cases h
    exact Or.inl ⟨ht.contains_collection.mp hcollection, rfl⟩
  · split at h
    · rename_i hdictionary
      cases h
      exact Or.inr (Or.inl ⟨ht.contains_dictionary.mp hdictionary, rfl⟩)
    · split at h
      · rename_i hgroups
        cases h
        exact Or.inr (Or.inr ⟨ht.contains_groups.mp hgroups, rfl⟩)
      · cases h

theorem Value.safe_at {h h' : Heap} {t k kt : Ty} {type : Except Ty.StripFault Ty}
    {target key : Value} {w : World} (htarget : Suits Proper h t target)
    (hkey : Suits Proper h' kt key) (hindex : t.indexing? = some (k, type))
    (haccepts : k.accepts kt = true) : Safe (target.at key) w := by
  have hkey' := proper_coherent.suits_of_accepts haccepts hkey
  have hshape := htarget.shape
  refine .bind .get .get fun _ w' _ _ => ?_
  rcases Ty.key_of_indexing? htarget.simple hindex with ⟨ht, rfl⟩ | ⟨ht, rfl⟩ | ⟨ht, rfl⟩
  · obtain ⟨n, rfl⟩ := hkey'.number rfl
    rw [ht] at hshape
    cases target with
    | collection cell =>
      simp only
      split
      · rename_i hplace
        exact .throw (.outOfRange (Number.isOutside_iff.1 hplace))
      · exact .pure _
    | _ => cases hshape
  · obtain ⟨s, rfl⟩ := hkey'.text rfl
    rw [ht] at hshape
    cases target with
    | dictionary cell =>
      simp only
      split
      · exact .pure _
      · exact .throw (.missingKey s)
    | _ => cases hshape
  · obtain ⟨s, rfl⟩ := hkey'.text rfl
    rw [ht] at hshape
    cases target with
    | groups cell => exact .newList _
    | _ => cases hshape

/-! ### Functions -/

/-- Given what it takes, the function fails for its data only. -/
def Function.Safe (f : Function) : Prop :=
  ∀ args w, f.parameters.Forall₂ (fun t v => Suits Value.Proper w.heap t v) args →
    ∀ e, (f.run args w).1 = .error e → DataFault (.call e)

theorem Eval.safe_call {f : Function} (hf : f.Safe) {args : List Value} {w : World}
    (hargs : f.parameters.Forall₂ (fun t v => Suits Value.Proper w.heap t v) args) :
    Eval.Safe (call f args) w := by
  unfold Eval.Safe call
  simp only [wp_bind, wp_get, wp_set]
  split
  · rintro e ⟨⟩
  · rename_i err hanswer
    rintro e ⟨⟩
    exact hf args w hargs err hanswer

/-- Values of types that a function accepts suit its parameters. -/
theorem Function.suits_parameters {f : Function} {es : List Checked} {vs : List Value} {h : Heap}
    (haccepts : f.accepts (es.map (·.type)) = true)
    (hvs : es.Forall₂ (fun e v => Suits Value.Proper h e.type v) vs) :
    f.parameters.Forall₂ (fun t v => Suits Value.Proper h t v) vs := by
  simp only [accepts, Bool.and_eq_true, beq_iff_eq, List.all_eq_true] at haccepts
  obtain ⟨hlength, hall⟩ := haccepts
  generalize f.parameters = parameters at hlength hall
  induction hvs generalizing parameters with
  | nil =>
    rw [List.length_eq_zero_iff.mp hlength]
    exact .nil
  | cons hv _ ih =>
    cases parameters with
    | nil => cases hlength
    | cons p parameters =>
      rw [List.map_cons, List.zip_cons_cons] at hall
      refine .cons ?_ (ih parameters (Nat.succ.inj hlength) fun q hq => ?_)
      · exact Value.proper_coherent.suits_of_accepts (hall _ List.mem_cons_self) hv
      · exact hall q (List.mem_cons_of_mem _ hq)

namespace Function

variable {name : String} {p q returns : Ty} {read : Heap → List Value → Except CallError Value}

/-- A function of one argument that always has an answer. -/
theorem safe_one (hread : ∀ h v, Suits Value.Proper h p v → ∃ a, read h [v] = .ok a) :
    (reading name [p] returns read).Safe := by
  rintro args w (_ | ⟨hv, ⟨⟩⟩) e herror
  obtain ⟨a, hok⟩ := hread w.heap _ hv
  cases hok.symm.trans herror

/-- A function of two arguments that always has an answer. -/
theorem safe_two (hread : ∀ h v u, Suits Value.Proper h p v → Suits Value.Proper h q u →
    ∃ a, read h [v, u] = .ok a) : (reading name [p, q] returns read).Safe := by
  rintro args w (_ | ⟨hv, _ | ⟨hu, ⟨⟩⟩⟩) e herror
  obtain ⟨a, hok⟩ := hread w.heap _ _ hv hu
  cases hok.symm.trans herror

theorem safe_number (hread : ∀ h n, ∃ a, read h [.number n] = .ok a) :
    (reading name [.number] returns read).Safe := by
  refine safe_one fun h v hv => ?_
  obtain ⟨n, rfl⟩ := hv.number rfl
  exact hread h n

theorem safe_numbers (hread : ∀ h n k, ∃ a, read h [.number n, .number k] = .ok a) :
    (reading name [.number, .number] returns read).Safe := by
  refine safe_two fun h v u hv hu => ?_
  obtain ⟨n, rfl⟩ := hv.number rfl
  obtain ⟨k, rfl⟩ := hu.number rfl
  exact hread h n k

theorem safe_text (hread : ∀ h s, ∃ a, read h [.text s] = .ok a) :
    (reading name [.text] returns read).Safe := by
  refine safe_one fun h v hv => ?_
  obtain ⟨s, rfl⟩ := hv.text rfl
  exact hread h s

end Function

namespace Library.Standard

theorem countItems_safe : countItems.Safe := by
  refine Function.safe_one fun h v hv => ?_
  obtain ⟨cell, rfl⟩ := hv.collection rfl
  exact ⟨_, rfl⟩

theorem countEntries_safe : countEntries.Safe := by
  refine Function.safe_one fun h v hv => ?_
  obtain ⟨cell, rfl⟩ := hv.dictionary rfl
  exact ⟨_, rfl⟩

theorem countGrouped_safe : countGrouped.Safe := by
  refine Function.safe_one fun h v hv => ?_
  obtain ⟨cell, rfl⟩ := hv.groups rfl
  exact ⟨_, rfl⟩

theorem contains_safe : contains.Safe := by
  refine Function.safe_two fun h v u hv _ => ?_
  obtain ⟨cell, rfl⟩ := hv.collection rfl
  exact ⟨_, rfl⟩

theorem hasEntry_safe : hasEntry.Safe := by
  refine Function.safe_two fun h v u hv hu => ?_
  obtain ⟨cell, rfl⟩ := hv.dictionary rfl
  obtain ⟨s, rfl⟩ := hu.text rfl
  exact ⟨_, rfl⟩

theorem hasGroup_safe : hasGroup.Safe := by
  refine Function.safe_two fun h v u hv hu => ?_
  obtain ⟨cell, rfl⟩ := hv.groups rfl
  obtain ⟨s, rfl⟩ := hu.text rfl
  exact ⟨_, rfl⟩

/-- The text may not be that of a number. -/
theorem toNumber_safe : toNumber.Safe := by
  rintro args w (_ | ⟨hv, ⟨⟩⟩) e herror
  obtain ⟨s, rfl⟩ := hv.text rfl
  rcases bind_eq_error_iff.mp herror with h | ⟨_, ⟨⟩, h⟩
  · cases h
  · split at h
    · cases h
    · rename_i hread
      cases h
      exact .notNumeric hread

/-- The entity may be nothing. Whatever else suits the type of the argument is an entity. -/
theorem name_safe : name.Safe := by
  rintro args w (_ | ⟨hv, ⟨⟩⟩) e herror
  rename_i v
  cases v with
  | entity e => cases herror
  | null =>
    cases herror
    exact .nullReference
  | number | text | boolean => exact absurd rfl (hv.plain rfl).1
  | collection | dictionary | groups => cases hv.shape

end Library.Standard

/-- **The functions of the standard library fail for their data only**, given what they take. -/
theorem Library.standard_safe : ∀ f ∈ standard.functions, f.Safe := by
  intro f hmem
  simp only [standard, List.mem_cons, List.not_mem_nil, or_false] at hmem
  rcases hmem with rfl | rfl | rfl | rfl | rfl | rfl | rfl | rfl | rfl | rfl | rfl | rfl | rfl |
    rfl | rfl | rfl | rfl
  · exact Standard.countItems_safe
  · exact Standard.countEntries_safe
  · exact Standard.countGrouped_safe
  · exact Standard.contains_safe
  · exact Standard.hasEntry_safe
  · exact Standard.hasGroup_safe
  · exact Standard.toNumber_safe
  · exact Function.safe_one fun _ _ _ => ⟨_, rfl⟩
  · exact Function.safe_one fun _ _ _ => ⟨_, rfl⟩
  · exact Function.safe_number fun _ _ => ⟨_, rfl⟩
  · exact Function.safe_number fun _ _ => ⟨_, rfl⟩
  · exact Function.safe_numbers fun _ _ _ => ⟨_, rfl⟩
  · exact Function.safe_numbers fun _ _ _ => ⟨_, rfl⟩
  · exact Function.safe_text fun _ _ => ⟨_, rfl⟩
  · exact Function.safe_text fun _ _ => ⟨_, rfl⟩
  · exact Function.safe_text fun _ _ => ⟨_, rfl⟩
  · exact Standard.name_safe

/-! ### Expressions -/

namespace Checked

variable {scope : Scope} {vars : Space}

/-- The value of a typed expression is of its type. -/
theorem eval_proper {e : Checked} (h : e.Typed .standard scope) {w : World}
    (hvars : vars.Supplies Value.Proper w.heap scope) :
    Yields (e.eval vars) (fun v h => Suits Value.Proper h e.type v) w :=
  eval_yields Value.proper_coherent (Library.standard_coherent Value.proper_coherent) e h w hvars

theorem evalAll_proper {es : List Checked} (h : AllTyped .standard scope es) {w : World}
    (hvars : vars.Supplies Value.Proper w.heap scope) :
    Yields (evalAll vars es)
      (fun vs h => es.Forall₂ (fun e v => Suits Value.Proper h e.type v) vs) w :=
  evalAll_yields Value.proper_coherent (Library.standard_coherent Value.proper_coherent) es h w
    hvars

/-- What comes after an expression has to be safe for the values of its type. -/
theorem safe_after {β : Type} {e : Checked} {f : Value → Eval β} (h : e.Typed .standard scope)
    {w : World} (hvars : vars.Supplies Value.Proper w.heap scope) (hsafe : Safe (e.eval vars) w)
    (hf : ∀ v w', vars.Supplies Value.Proper w'.heap scope → Suits Value.Proper w'.heap e.type v →
      Safe (f v) w') : Safe (e.eval vars >>= f) w :=
  .bind hsafe (eval_proper h hvars) fun v w' hkeeps hv => hf v w' (hvars.keeps hkeeps) hv

mutual

/-- **A typed expression fails for its data only.** -/
theorem eval_safe : ∀ (e : Checked), e.Typed .standard scope → ∀ w : World,
    vars.Supplies Value.Proper w.heap scope → Safe (e.eval vars) w
  | literal l, _, w, _ => by
    rw [eval]
    exact .pure _
  | var name type, h, w, hvars => by
    obtain ⟨v, hvalue, -⟩ := hvars name type h
    rw [eval, hvalue]
    exact .pure v
  | negate e, h, w, hvars => by
    rw [eval]
    refine safe_after h.1 hvars (eval_safe e h.1 w hvars) fun v _ _ hv => ?_
    exact .number (hv.number h.2) fun _ => .pure _
  | not e, h, w, hvars => by
    rw [eval]
    refine safe_after h.1 hvars (eval_safe e h.1 w hvars) fun v _ _ hv => ?_
    exact .boolean (hv.boolean h.2) fun _ => .pure _
  | arithmetic op l r, h, w, hvars => by
    obtain ⟨hl, hr, htl, htr⟩ := h
    rw [eval]
    refine safe_after hl hvars (eval_safe l hl w hvars) fun a w₁ hvars₁ ha => ?_
    refine .number (ha.number htl) fun x => ?_
    refine safe_after hr hvars₁ (eval_safe r hr w₁ hvars₁) fun b w₂ _ hb => ?_
    refine .number (hb.number htr) fun y => ?_
    split
    · exact .pure _
    · rename_i happly
      exact .throw (Arithmetic.dataFault_of_apply happly)
  | concat l r, h, w, hvars => by
    obtain ⟨hl, hr, -⟩ := h
    rw [eval]
    refine safe_after hl hvars (eval_safe l hl w hvars) fun a w₁ hvars₁ _ => ?_
    refine safe_after hr hvars₁ (eval_safe r hr w₁ hvars₁) fun b w₂ _ _ => ?_
    exact .render fun _ => .render fun _ => .pure _
  | compare op l r, h, w, hvars => by
    obtain ⟨hl, hr, htakes⟩ := h
    rw [eval]
    refine safe_after hl hvars (eval_safe l hl w hvars) fun a w₁ hvars₁ ha => ?_
    refine safe_after hr hvars₁ (eval_safe r hr w₁ hvars₁) fun b w₂ _ hb => ?_
    exact .bind (Comparison.safe_apply htakes ha.unmarked hb.unmarked) (op.quiet_apply a b)
      fun _ _ _ _ => .pure _
  | and l r, h, w, hvars => by
    obtain ⟨hl, hr, htl, htr⟩ := h
    rw [eval]
    refine safe_after hl hvars (eval_safe l hl w hvars) fun a w₁ hvars₁ ha => ?_
    refine .boolean (ha.boolean htl) fun x => ?_
    cases x with
    | false => exact .pure _
    | true =>
      refine safe_after hr hvars₁ (eval_safe r hr w₁ hvars₁) fun b w₂ _ hb => ?_
      exact .boolean (hb.boolean htr) fun _ => .pure _
  | or l r, h, w, hvars => by
    obtain ⟨hl, hr, htl, htr⟩ := h
    rw [eval]
    refine safe_after hl hvars (eval_safe l hl w hvars) fun a w₁ hvars₁ ha => ?_
    refine .boolean (ha.boolean htl) fun x => ?_
    cases x with
    | true => exact .pure _
    | false =>
      refine safe_after hr hvars₁ (eval_safe r hr w₁ hvars₁) fun b w₂ _ hb => ?_
      exact .boolean (hb.boolean htr) fun _ => .pure _
  | index t k type, h, w, hvars => by
    obtain ⟨ht, hk, key, hindex, haccepts⟩ := h
    rw [eval]
    refine safe_after ht hvars (eval_safe t ht w hvars) fun a w₁ hvars₁ ha => ?_
    refine safe_after hk hvars₁ (eval_safe k hk w₁ hvars₁) fun b w₂ _ hb => ?_
    exact Value.safe_at ha.unmarked hb.unmarked hindex haccepts
  | call f args, h, w, hvars => by
    obtain ⟨hargs, hmem, haccepts⟩ := h
    rw [eval]
    refine .bind (evalAll_safe args hargs w hvars) (evalAll_proper hargs hvars) fun vs _ _ hvs => ?_
    exact Eval.safe_call (Library.standard_safe f hmem) (Function.suits_parameters haccepts hvs)

theorem evalAll_safe : ∀ (es : List Checked), AllTyped .standard scope es → ∀ w : World,
    vars.Supplies Value.Proper w.heap scope → Safe (evalAll vars es) w
  | [], _, w, _ => by
    rw [evalAll]
    exact .pure _
  | e :: es, h, w, hvars => by
    rw [evalAll]
    refine safe_after h.1 hvars (eval_safe e h.1 w hvars) fun _ w₁ hvars₁ _ => ?_
    exact .bind (evalAll_safe es h.2 w₁ hvars₁) (evalAll_proper h.2 hvars₁)
      fun _ _ _ _ => .pure _

end

end Checked

/-- **Accepted expressions give values of their types, or fail for their data.** Let every name of
the scope have a value that suits its type. Then an expression that is accepted in the scope gives a
value that suits its own type, or one of the errors of data. -/
theorem Tree.run_of_check {scope : Scope} {t : Tree} {e : Checked} {vars : Space} {w : World}
    (hcheck : t.check .standard scope = .ok e)
    (hvars : vars.Supplies Value.Proper w.heap scope) :
    (∃ v, (e.run vars w).1 = .ok v ∧ Suits Value.Proper (e.run vars w).2.heap e.type v) ∨
      ∃ fault, (e.run vars w).1 = .error fault ∧ DataFault fault := by
  have htyped := check_typed hcheck
  have hyields := (Checked.eval_proper htyped hvars).2
  have hsafe := Checked.eval_safe e htyped w hvars
  cases hrun : (e.run vars w).1 with
  | ok v => exact Or.inl ⟨v, rfl, hyields v hrun⟩
  | error fault => exact Or.inr ⟨fault, rfl, hsafe fault hrun⟩

/-- The scope of some variables. -/
def Scope.ofEntries (entries : List (String × Ty × Value)) : Scope :=
  ⟨⟨entries.map fun e => (e.1, e.2.1)⟩⟩

/-- The space of some variables. -/
def Space.ofEntries (entries : List (String × Ty × Value)) : Space :=
  ⟨⟨entries.map fun e => (e.1, ⟨e.2.1, e.2.2⟩)⟩, []⟩

theorem Space.supplies_ofEntries {fits : BitVec 14 → Value → Prop} {h : Heap}
    {entries : List (String × Ty × Value)}
    (hentries : ∀ e ∈ entries, WorldScript.Suits fits h e.2.1 e.2.2) :
    (ofEntries entries).Supplies fits h (.ofEntries entries) := by
  intro name type hlookup
  simp only [Scope.lookup, Scope.ofEntries, Dict.find?] at hlookup
  simp only [value?, get?, findIn, frames, ofEntries, Dict.find?, List.findSome?_cons]
  induction entries with
  | nil => cases hlookup
  | cons e entries ih =>
    simp only [List.map_cons, List.lookup_cons] at hlookup ⊢
    by_cases hname : (Text.lower name == e.1) = true
    · rw [hname] at hlookup ⊢
      cases hlookup
      exact ⟨e.2.2, rfl, hentries e List.mem_cons_self⟩
    · rw [Bool.not_eq_true] at hname
      rw [hname] at hlookup ⊢
      exact ih (fun e he => hentries e (List.mem_cons_of_mem _ he)) hlookup

/-- A sequence of prices, a place in it that is too large, and a thing that is nothing. -/
def market : List (String × Ty × Value) :=
  [("n", .number, .number 7.0), ("prices", .number ||| .collection, .collection 0),
    ("what", .item ||| .character, .null)]

/-- The world in which the prices are. -/
def marketWorld : World := ⟨(Heap.empty.newList [.number 2.5, .number 4.0]).2, []⟩

/-- `name(what) + prices[n - 6]` -/
def label : Tree :=
  .binary .add (.call "name" [.var "what"])
    (.index (.var "prices") (.binary .sub (.var "n") (.number 6.0)))

theorem market_supplies :
    (Space.ofEntries market).Supplies Value.Proper marketWorld.heap (.ofEntries market) := by
  refine Space.supplies_ofEntries fun e he => ?_
  simp only [market, List.mem_cons, List.not_mem_nil, or_false] at he
  rcases he with rfl | rfl | rfl
  · exact Value.proper_coherent.suits_number 7.0
  · refine Coherent.suits_newList rfl fun x hx => ?_
    simp only [List.mem_cons, List.not_mem_nil, or_false] at hx
    rcases hx with rfl | rfl
    · exact Value.proper_coherent.number 2.5
    · exact Value.proper_coherent.number 4.0
  · exact Value.proper_coherent.suits_plain rfl ⟨by decide, trivial⟩

theorem Tree.run_of_check_label :
    (Space.ofEntries market).Supplies Value.Proper marketWorld.heap (.ofEntries market) ∧
    ∃ e, label.check .standard (.ofEntries market) = .ok e ∧
      ((∃ v, (e.run (.ofEntries market) marketWorld).1 = .ok v ∧
        Suits Value.Proper (e.run (.ofEntries market) marketWorld).2.heap e.type v) ∨
      ∃ fault, (e.run (.ofEntries market) marketWorld).1 = .error fault ∧ DataFault fault) := by
  have hok : (label.check .standard (.ofEntries market)).isOk = true := by decide +kernel
  obtain ⟨e, he⟩ := exists_eq_ok_of_isOk hok
  exact ⟨market_supplies, e, he, run_of_check he market_supplies⟩

end WorldScript
