import WorldScript.Program.Arguments
import WorldScript.Proofs.Expr.Typed
import WorldScript.Proofs.Heap.Cells
import WorldScript.Proofs.Ty.Shape

/-! # Values that suit a type

A value suits a type if it has the shape of the type, and all that is plain in it, be it the value
itself or its elements, fits the kinds of the type. What it means to fit is left open here:
`Coherent` and `Fitting` list what is needed of it. Three readings are used later. In one of them
every plain value fits, in another one a value has to be of one of the kinds, and in the third an
entity has to be of kinds of entities, too.

* `Coherent.suits_of_accepts`: a value suits every type that accepts a type it suits.
* `Suits.adds`: a value goes on to suit its type while what is added to its cell fits.
* `Coherent.suits_initial`, `Fitting.suits_argument`: the values that variables start with, and the
  arguments that are let in. -/

namespace WorldScript

/-- What is needed of a relation between kinds and the plain values that fit them. -/
structure Coherent (fits : BitVec 14 → Value → Prop) : Prop where
  plain : ∀ {k v}, fits k v → v.shape = 0
  number : ∀ n, fits Ty.number.kinds (.number n)
  text : ∀ s, fits Ty.text.kinds (.text s)
  boolean : ∀ b, fits Ty.boolean.kinds (.boolean b)
  null : ∀ {k}, k ≠ Ty.number.kinds → k ≠ Ty.text.kinds → k ≠ Ty.boolean.kinds → fits k .null
  /-- One number fits as well as another. -/
  anyNumber : ∀ {k a} b, fits k (.number a) → fits k (.number b)
  anyText : ∀ {k a} b, fits k (.text a) → fits k (.text b)
  widen : ∀ {t u : Ty} {v}, t.accepts u = true → fits u.kinds v → fits t.kinds v

/-- What is needed where values come in from outside: an entity fits its own kind, whatever that
is. -/
structure Fitting (fits : BitVec 14 → Value → Prop) : Prop extends Coherent fits where
  entity : ∀ e, fits e.kind.kinds (.entity e)

/-- The value has the shape of the type, and what is plain in it fits. -/
structure Suits (fits : BitVec 14 → Value → Prop) (h : Heap) (t : Ty) (v : Value) : Prop where
  shape : v.shape = t.shape
  plain : t.shape = 0 → fits t.kinds v
  live : h.Live v
  elements : ∀ x ∈ h.elements v, fits t.kinds x

variable {fits : BitVec 14 → Value → Prop} {h h' : Heap} {t u : Ty} {v : Value}

namespace Ty

/-- Types without shape and marks are told apart by their kinds. -/
theorem eq_of_kinds (ht : t.shape = 0) (htm : t.marks = 0) (hu : u.shape = 0) (hum : u.marks = 0)
    (hkinds : t.kinds = u.kinds) : t = u := by
  obtain ⟨kinds, shape, marks⟩ := t
  obtain ⟨kinds', shape', marks'⟩ := u
  simp only at ht htm hu hum hkinds
  rw [ht, htm, hu, hum, hkinds]

theorem kinds_of_accepts_void (h : t.accepts .void = true) : t.kinds = void.kinds := by
  rcases kinds_of_accepts h with heq | ⟨hvoid, -⟩
  · exact heq
  · exact absurd hvoid (by decide)

end Ty

namespace Suits

/-- Only the kinds and the shape of the type matter. -/
theorem congr (hs : Suits fits h t v) (hkinds : u.kinds = t.kinds) (hshape : u.shape = t.shape) :
    Suits fits h u v := by
  refine ⟨hs.shape.trans hshape.symm, ?_, hs.live, ?_⟩
  · rw [hkinds, hshape]
    exact hs.plain
  · rw [hkinds]
    exact hs.elements

theorem unmarked (hs : Suits fits h t v) : Suits fits h t.unmarked v := hs.congr rfl rfl

theorem of_unmarked (hs : Suits fits h u v) (heq : t.unmarked = u) : Suits fits h t v := by
  subst heq
  exact hs.congr rfl rfl

theorem simple (hs : Suits fits h t v) : t.Simple := by
  unfold Ty.Simple
  rw [← hs.shape]
  cases v with
  | collection c => exact Or.inr (Or.inl rfl)
  | dictionary c => exact Or.inr (Or.inr (Or.inl rfl))
  | groups c => exact Or.inr (Or.inr (Or.inr rfl))
  | _ => exact Or.inl rfl

theorem adds (hs : Suits fits h t v) {target : Value} {added : List Value}
    (ha : h.Adds h' target added) (hadded : v = target → ∀ x ∈ added, fits t.kinds x) :
    Suits fits h' t v := by
  refine ⟨hs.shape, hs.plain, ha.live hs.live, ?_⟩
  intro x hx
  rcases ha.elements hs.live x hx with hold | ⟨heq, hnew⟩
  · exact hs.elements x hold
  · exact hadded heq x hnew

theorem keeps (hs : Suits fits h t v) (hk : h.Keeps h') : Suits fits h' t v :=
  hs.adds hk fun _ x hx => by cases hx

end Suits

namespace Coherent

variable (hf : Coherent fits)

include hf

theorem suits_plain (hshape : t.shape = 0) (hv : fits t.kinds v) : Suits fits h t v := by
  have hplain := hf.plain hv
  refine ⟨hplain.trans hshape.symm, fun _ => hv, Heap.live_of_plain hplain, ?_⟩
  intro x hx
  rw [Heap.elements_of_plain hplain] at hx
  cases hx

theorem suits_number (n : Float) : Suits fits h .number (.number n) :=
  hf.suits_plain rfl (hf.number n)

theorem suits_text (s : String) : Suits fits h .text (.text s) := hf.suits_plain rfl (hf.text s)

theorem suits_boolean (b : Bool) : Suits fits h .boolean (.boolean b) :=
  hf.suits_plain rfl (hf.boolean b)

/-- A value suits every type that accepts a type it suits. -/
theorem suits_of_accepts (hacc : t.accepts u = true) (hs : Suits fits h u v) :
    Suits fits h t v := by
  have hshape := Ty.shape_eq_of_accepts hacc
  refine ⟨hs.shape.trans hshape.symm, ?_, hs.live, fun x hx => hf.widen hacc (hs.elements x hx)⟩
  intro hplain
  exact hf.widen hacc (hs.plain (hshape.symm.trans hplain))

omit hf

/-- A value whose cell is empty suits every type of its shape. -/
theorem suits_of_no_elements (hshape : v.shape = t.shape) (hne : t.shape ≠ 0) (hlive : h.Live v)
    (hempty : h.elements v = []) : Suits fits h t v := by
  refine ⟨hshape, fun hplain => absurd hplain hne, hlive, ?_⟩
  intro x hx
  rw [hempty] at hx
  cases hx

theorem suits_newList (hshape : t.shape = 1) {items : List Value}
    (hitems : ∀ x ∈ items, fits t.kinds x) :
    Suits fits (h.newList items).2 t (h.newList items).1 := by
  refine ⟨hshape.symm, ?_, Heap.live_newList h items, ?_⟩
  · intro hplain
    rw [hshape] at hplain
    cases hplain
  · rw [Heap.elements_newList]
    exact hitems

/-! ### What variables start with -/

theorem suits_newGroups_empty (h : Heap) (ht : t.shape = 4) :
    Suits fits (h.newGroups .empty).2 t (h.newGroups .empty).1 := by
  refine suits_of_no_elements ht.symm (by rw [ht]; decide) ?_ ?_
  · exact Nat.lt_of_lt_of_eq (Nat.lt_succ_self _) (Pool.size_alloc _ _).symm
  · exact congrArg (fun d : Dict (List Value) => d.entries.flatMap (·.2)) (Pool.get_alloc_self _ _)

theorem suits_newDict_empty (h : Heap) (ht : t.shape = 2) :
    Suits fits (h.newDict .empty).2 t (h.newDict .empty).1 := by
  refine suits_of_no_elements ht.symm (by rw [ht]; decide) ?_ ?_
  · exact Nat.lt_of_lt_of_eq (Nat.lt_succ_self _) (Pool.size_alloc _ _).symm
  · exact congrArg (fun d : Dict Value => d.entries.map (·.2)) (Pool.get_alloc_self _ _)

include hf

theorem suits_initial (h : Heap) (ht : t.Simple) :
    Suits fits (h.initial t).2 t (h.initial t).1 := by
  unfold Heap.initial
  split
  · rename_i hgroups
    exact suits_newGroups_empty h (ht.contains_groups.mp hgroups)
  · split
    · rename_i hdictionary
      exact suits_newDict_empty h (ht.contains_dictionary.mp hdictionary)
    · split
      · rename_i hcollection
        exact suits_newList (ht.contains_collection.mp hcollection) fun x hx => by cases hx
      · rename_i hgroups hdictionary hcollection
        have hplain : t.shape = 0 := by
          have hcases := ht
          rcases hcases with h0 | h1 | h2 | h4
          · exact h0
          · exact absurd (ht.contains_collection.mpr h1) hcollection
          · exact absurd (ht.contains_dictionary.mpr h2) hdictionary
          · exact absurd (ht.contains_groups.mpr h4) hgroups
        split
        · rename_i heq
          exact (hf.suits_number 0).of_unmarked heq
        · split
          · rename_i heq
            exact (hf.suits_text "").of_unmarked heq
          · split
            · rename_i heq
              exact (hf.suits_boolean false).of_unmarked heq
            · rename_i hnumber htext hboolean
              refine hf.suits_plain hplain (hf.null ?_ ?_ ?_)
              · exact fun hk => hnumber (Ty.eq_of_kinds (t := t.unmarked) hplain rfl rfl rfl hk)
              · exact fun hk => htext (Ty.eq_of_kinds (t := t.unmarked) hplain rfl rfl rfl hk)
              · exact fun hk => hboolean (Ty.eq_of_kinds (t := t.unmarked) hplain rfl rfl rfl hk)

end Coherent

/-! ### Arguments -/

namespace Ty

theorem element_of_plain (ht : t.shape = 0) : t.element = .ok none := by
  have hnone : t.unmarked.outerShape? = none := by
    simp [outerShape?, contains, unmarked, collection, dictionary, groups, ht]
  unfold element
  rw [hnone]

theorem element_of_structural (ht : t.Simple) (hne : t.shape ≠ 0) :
    t.element = .ok (some t.base) := by
  have hsome : t.unmarked.outerShape? = some ⟨0, t.shape, 0⟩ := by
    rcases ht with h0 | h1 | h2 | h4
    · exact absurd h0 hne
    all_goals simp [outerShape?, contains, unmarked, collection, dictionary, groups, *]
  unfold element
  rw [hsome]
  simp only [strip_of_structural_eq rfl]
  rfl

theorem elementsIn?_eq_some {shape : Ty} {items : List Value}
    (hitems : elementsIn? shape h v = some items) :
    v.shape = shape.shape ∧ items = h.elements v := by
  unfold elementsIn? at hitems
  split at hitems
  case h_4 => cases hitems
  all_goals
    split at hitems
    · rename_i hshape
      cases hitems
      exact ⟨(congrArg Ty.shape hshape).symm, rfl⟩
    · cases hitems

end Ty

namespace Fitting

variable (hf : Fitting fits)

include hf

/-- A value that is let in where a plain type is wanted fits its kinds. -/
theorem fits_of_plainMismatch? (ht : t.shape = 0) (hmarks : t.marks = 0)
    (hm : t.plainMismatch? v = none) : fits t.kinds v := by
  unfold Ty.plainMismatch? at hm
  split at hm
  · rename_i hlet
    simp only [Bool.or_eq_true, Bool.and_eq_true] at hlet
    rcases hlet with ⟨hnull, haccepts⟩ | haccepts
    · cases v with
      | null =>
        simp only [Ty.acceptsNull, Bool.and_eq_true, bne_iff_ne, ne_eq] at haccepts
        obtain ⟨⟨⟨-, hnumber⟩, htext⟩, hboolean⟩ := haccepts
        refine hf.null ?_ ?_ ?_
        · exact fun hk => hnumber (Ty.eq_of_kinds ht hmarks rfl rfl hk)
        · exact fun hk => htext (Ty.eq_of_kinds ht hmarks rfl rfl hk)
        · exact fun hk => hboolean (Ty.eq_of_kinds ht hmarks rfl rfl hk)
      | _ => cases hnull
    · have hshape : v.type.shape = 0 := (Ty.shape_eq_of_accepts haccepts).symm.trans ht
      cases v with
      | null =>
        -- of the types without a shape only `void` itself takes a value of that type
        have hkinds := Ty.kinds_of_accepts_void haccepts
        refine hf.null ?_ ?_ ?_ <;> rw [hkinds] <;> decide
      | number n => exact hf.widen haccepts (hf.number n)
      | text s => exact hf.widen haccepts (hf.text s)
      | boolean b => exact hf.widen haccepts (hf.boolean b)
      | entity e => exact hf.widen haccepts (hf.entity e)
      | collection c => cases hshape
      | dictionary c => cases hshape
      | groups c => cases hshape
  · cases hm

/-- An argument that is let in suits the type of its parameter. -/
theorem suits_argument (ht : t.Simple) (hlive : h.Live v) (hm : t.mismatch? h v = .ok none) :
    Suits fits h t v := by
  by_cases hplain : t.shape = 0
  · simp only [Ty.mismatch?, Ty.element_of_plain hplain] at hm
    have hnone : t.unmarked.plainMismatch? v = none := pure_eq_ok_iff.mp hm
    exact hf.suits_plain hplain (hf.fits_of_plainMismatch? (t := t.unmarked) hplain rfl hnone)
  · simp only [Ty.mismatch?, Ty.element_of_structural ht hplain, bind_eq_ok_iff] at hm
    obtain ⟨element, helement, hm⟩ := hm
    cases helement
    simp only at hm
    split at hm
    · cases hm
    · rename_i items hitems
      obtain ⟨hshape, rfl⟩ := Ty.elementsIn?_eq_some hitems
      refine ⟨hshape, fun h0 => absurd h0 hplain, hlive, ?_⟩
      intro x hx
      rw [pure_eq_ok_iff, Option.map_eq_none_iff, List.findSome?_eq_none_iff] at hm
      exact hf.fits_of_plainMismatch? (t := t.base) rfl rfl (hm x hx)

end Fitting

end WorldScript
