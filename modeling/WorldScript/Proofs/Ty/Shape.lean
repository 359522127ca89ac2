import WorldScript.Ty.Name

/-! # Types of at most one shape

A type that a source can name has at most one shape. For such a type the shape alone decides what
its values are, and taking the shape away leaves the kinds.

* `read_simple`: every type that can be read is of this sort.
* `shape_eq_of_accepts`, `kinds_of_accepts`: what compatibility says about shapes and kinds. -/

namespace WorldScript

theorem mem_of_lookup {α : Type} {entries : List (String × α)} {key : String} {a : α}
    (h : entries.lookup key = some a) : (key, a) ∈ entries := by
  obtain ⟨before, after, rfl, -⟩ := List.lookup_eq_some_iff.mp h
  simp

namespace Ty

/-- The type has at most one shape. -/
def Simple (t : Ty) : Prop := t.shape = 0 ∨ t.shape = 1 ∨ t.shape = 2 ∨ t.shape = 4

instance (t : Ty) : Decidable t.Simple := inferInstanceAs (Decidable (_ ∨ _))

/-! ### One flag of shape -/

theorem structural_eq_collection_iff {t : Ty} : t.structural = collection ↔ t.shape = 1 := by
  simp [structural, collection]

theorem structural_eq_dictionary_iff {t : Ty} : t.structural = dictionary ↔ t.shape = 2 := by
  simp [structural, dictionary]

theorem structural_eq_groups_iff {t : Ty} : t.structural = groups ↔ t.shape = 4 := by
  simp [structural, groups]

theorem contains_collection_iff {t : Ty} : t.contains collection = true ↔ t.shape &&& 1 = 1 := by
  simp [contains_iff, collection]

theorem contains_dictionary_iff {t : Ty} : t.contains dictionary = true ↔ t.shape &&& 2 = 2 := by
  simp [contains_iff, dictionary]

theorem contains_groups_iff {t : Ty} : t.contains groups = true ↔ t.shape &&& 4 = 4 := by
  simp [contains_iff, groups]

theorem Simple.contains_collection {t : Ty} (h : t.Simple) :
    t.contains collection = true ↔ t.shape = 1 := by
  rw [contains_collection_iff]
  rcases h with h | h | h | h <;> simp [h]

theorem Simple.contains_dictionary {t : Ty} (h : t.Simple) :
    t.contains dictionary = true ↔ t.shape = 2 := by
  rw [contains_dictionary_iff]
  rcases h with h | h | h | h <;> simp [h]

theorem Simple.contains_groups {t : Ty} (h : t.Simple) :
    t.contains groups = true ↔ t.shape = 4 := by
  rw [contains_groups_iff]
  rcases h with h | h | h | h <;> simp [h]

/-- A shape that is the only one can be taken away, and the kinds are left. -/
theorem strip_of_structural_eq {t : Ty} {n : BitVec 3} (h : t.shape = n) :
    t.unmarked.strip ⟨0, n, 0⟩ = .ok t.base := by
  rw [strip_eq_ok_iff]
  subst h
  simp [contains_iff, unmarked, base]

/-! ### Compatibility -/

theorem shape_eq_of_accepts {t u : Ty} (h : t.accepts u = true) : t.shape = u.shape := by
  simp only [accepts, Bool.and_eq_true, beq_iff_eq] at h
  exact h.1

theorem kinds_of_accepts {t u : Ty} (h : t.accepts u = true) :
    t.kinds = u.kinds ∨ (u.hasVoid = false ∧ u.kinds ≠ 0 ∧ u.kinds &&& ~~~t.kinds = 0) := by
  simp only [accepts, Bool.and_eq_true, Bool.or_eq_true, beq_iff_eq, bne_iff_ne,
    Bool.not_eq_true'] at h
  rcases h.2 with heq | ⟨⟨⟨-, hvoid⟩, hne⟩, hsub⟩
  · exact Or.inl heq
  · exact Or.inr ⟨hvoid, hne, hsub⟩

/-! ### Types of sources -/

theorem baseWords_shape : ∀ e ∈ baseWords, e.2.shape = 0 := by decide

theorem shapeWords_simple : ∀ e ∈ shapeWords, e.2.Simple := by decide

theorem ofWords_simple {words : List String} {t : Ty} (h : ofWords words = .ok t) : t.Simple := by
  unfold ofWords at h
  split at h
  · cases h
  · split at h
    · cases h
    · rename_i base hbase
      have hb : base.shape = 0 := baseWords_shape _ (mem_of_lookup hbase)
      split at h
      · cases h
        exact Or.inl hb
      · split at h
        · cases h
        · rename_i shape hshape
          have hs : shape.Simple := shapeWords_simple _ (mem_of_lookup hshape)
          split at h
          · cases h
          · split at h
            · cases h
            · cases h
              simpa [Simple, hb] using hs

theorem read_simple {s : String} {t : Ty} (h : read s = .ok t) : t.Simple := ofWords_simple h

end Ty

end WorldScript
