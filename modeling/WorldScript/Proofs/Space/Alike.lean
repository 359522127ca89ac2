import Mathlib.Data.List.Forall2
import WorldScript.Proofs.Space.Types

/-! # Dictionaries and spaces with related values

Two runs that use different addresses have variables of the same names and types, with values that
correspond to each other. Here the correspondence is any relation between values: dictionaries and
spaces are *alike* if they have the same keys in the same places, with related values. All
operations on them only move values around, so they lead from alike ones to alike ones, whatever the
relation is.

* `Agree`: two computations that may fail, with related results or the same error.
* `Dict.Alike.find?`, `Dict.Alike.insert`, `Dict.Alike.erase`, `Dict.Alike.override`.
* `Space.Alike.declare?`, `Space.Alike.set?`, `Space.Alike.snapshot`. -/

namespace WorldScript

/-- Both succeed, with related results, or both fail, with the same error. -/
inductive Agree {ε α β : Type} (R : α → β → Prop) : Except ε α → Except ε β → Prop
  | ok {a : α} {b : β} : R a b → Agree R (.ok a) (.ok b)
  | error (e : ε) : Agree R (.error e) (.error e)

namespace Agree

variable {ε α β γ δ : Type} {R : α → β → Prop} {S : γ → δ → Prop}

theorem eq_or {x : Except ε α} {y : Except ε β} (h : Agree R x y) :
    (∃ a b, x = .ok a ∧ y = .ok b ∧ R a b) ∨ ∃ e, x = .error e ∧ y = .error e := by
  cases h with
  | ok hab => exact Or.inl ⟨_, _, rfl, rfl, hab⟩
  | error e => exact Or.inr ⟨e, rfl, rfl⟩

theorem bind {x : Except ε α} {y : Except ε β} {f : α → Except ε γ} {g : β → Except ε δ}
    (hxy : Agree R x y) (hfg : ∀ a b, R a b → Agree S (f a) (g b)) :
    Agree S (x >>= f) (y >>= g) := by
  cases hxy with
  | ok hab => exact hfg _ _ hab
  | error e => exact .error e

/-- The first results are the same. -/
theorem bind_same {x y : Except ε α} {f : α → Except ε γ} {g : α → Except ε δ}
    (hxy : Agree (· = ·) x y) (hfg : ∀ a, Agree S (f a) (g a)) : Agree S (x >>= f) (y >>= g) := by
  cases hxy with
  | @ok a b hab =>
    cases hab
    exact hfg a
  | error e => exact .error e

theorem refl (x : Except ε α) : Agree (· = ·) x x := by
  cases x with
  | ok a => exact .ok rfl
  | error e => exact .error e

end Agree

section Option

variable {α β γ δ : Type} {R : α → β → Prop} {S : γ → δ → Prop} {x : Option α} {y : Option β}

theorem rel_eq_or (h : Option.Rel R x y) :
    (x = none ∧ y = none) ∨ ∃ a b, x = some a ∧ y = some b ∧ R a b := by
  cases h with
  | none => exact Or.inl ⟨rfl, rfl⟩
  | some hab => exact Or.inr ⟨_, _, rfl, rfl, hab⟩

theorem rel_isSome (h : Option.Rel R x y) : y.isSome = x.isSome := by
  cases h with
  | none => rfl
  | some _ => rfl

theorem rel_map {f : α → γ} {g : β → δ} (h : Option.Rel R x y)
    (hfg : ∀ a b, R a b → S (f a) (g b)) : Option.Rel S (x.map f) (y.map g) := by
  cases h with
  | none => exact .none
  | some hab => exact .some (hfg _ _ hab)

theorem rel_imp {S : α → β → Prop} (h : Option.Rel R x y) (hRS : ∀ a b, R a b → S a b) :
    Option.Rel S x y := by
  cases h with
  | none => exact .none
  | some hab => exact .some (hRS _ _ hab)

end Option

/-! ### Dictionaries -/

/-- Two entries with the same key and related values. -/
def EntryAlike {α β : Type} (R : α → β → Prop) (e : String × α) (e' : String × β) : Prop :=
  e.1 = e'.1 ∧ R e.2 e'.2

namespace Dict

variable {α β : Type} {R S : α → β → Prop} {d top : Dict α} {d' top' : Dict β} {key : String}

/-- The same keys in the same places, with related values. -/
def Alike (R : α → β → Prop) (d : Dict α) (d' : Dict β) : Prop :=
  List.Forall₂ (EntryAlike R) d.entries d'.entries

theorem alike_empty : Alike R .empty .empty := List.Forall₂.nil

theorem alike_self {R : α → α → Prop} (h : ∀ e ∈ d.entries, R e.2 e.2) : d.Alike R d :=
  List.forall₂_same.mpr fun e he => ⟨rfl, h e he⟩

theorem Alike.imp (h : d.Alike R d') (hRS : ∀ a b, R a b → S a b) : d.Alike S d' :=
  List.Forall₂.imp (fun _ _ he => ⟨he.1, hRS _ _ he.2⟩) h

theorem Alike.flip {S : β → α → Prop} (h : d.Alike R d') (hRS : ∀ a b, R a b → S b a) :
    d'.Alike S d :=
  List.Forall₂.flip (List.Forall₂.imp (fun _ _ he => ⟨he.1.symm, hRS _ _ he.2⟩) h)

theorem Alike.size (h : d.Alike R d') : d'.size = d.size := h.length_eq.symm

theorem Alike.find? (h : d.Alike R d') (key : String) :
    Option.Rel R (d.find? key) (d'.find? key) := by
  obtain ⟨entries⟩ := d
  obtain ⟨entries'⟩ := d'
  unfold Alike at h
  unfold Dict.find?
  dsimp only at h ⊢
  induction h with
  | nil => exact .none
  | @cons e e' rest rest' he _ ih =>
    obtain ⟨k, a⟩ := e
    obtain ⟨k', b⟩ := e'
    obtain ⟨hk, hab⟩ := he
    dsimp only at hk hab
    subst hk
    rw [List.lookup_cons, List.lookup_cons]
    cases key == k with
    | true => exact .some hab
    | false => exact ih

theorem Alike.contains (h : d.Alike R d') (key : String) : d'.contains key = d.contains key :=
  rel_isSome (h.find? key)

theorem Alike.insert (h : d.Alike R d') (key : String) {a : α} {b : β} (hab : R a b) :
    (d.insert key a).Alike R (d'.insert key b) := by
  obtain ⟨entries⟩ := d
  obtain ⟨entries'⟩ := d'
  unfold Alike at h ⊢
  unfold Dict.insert
  dsimp only at h ⊢
  induction h with
  | nil => exact .cons ⟨rfl, hab⟩ .nil
  | @cons e e' rest rest' he hrest ih =>
    obtain ⟨k, x⟩ := e
    obtain ⟨k', y⟩ := e'
    obtain ⟨hk, hxy⟩ := he
    dsimp only at hk hxy
    subst hk
    simp only [insertEntry]
    split
    · exact .cons ⟨rfl, hab⟩ (.cons ⟨rfl, hxy⟩ hrest)
    · split
      · exact .cons ⟨rfl, hab⟩ hrest
      · exact .cons ⟨rfl, hxy⟩ ih

theorem Alike.erase (h : d.Alike R d') (key : String) :
    (d.erase key).Alike R (d'.erase key) := by
  refine List.rel_filter ?_ h
  rintro e e' ⟨hk, -⟩
  dsimp only
  rw [hk]

/-- The entries of one dictionary on top of those of another. -/
theorem Alike.override (h : d.Alike R d') (htop : top.Alike R top') :
    (d.override top).Alike R (d'.override top') := by
  refine List.rel_foldr ?_ h htop
  rintro ⟨k, a⟩ ⟨k', b⟩ ⟨hk, hab⟩ below below' hbelow
  dsimp only at hk
  subst hk
  exact hbelow.insert k hab

end Dict

/-! ### Spaces -/

/-- Two variables of the same type with related values. -/
def Variable.Alike (R : Value → Value → Prop) (var var' : Variable) : Prop :=
  var.type = var'.type ∧ R var.value var'.value

namespace Space

variable {R S : Value → Value → Prop} {s s' : Space}

/-- The same variables in the same frames, with related values. -/
def Alike (R : Value → Value → Prop) (s s' : Space) : Prop :=
  List.Forall₂ (Dict.Alike (Variable.Alike R)) s.frames s'.frames

/-- The values of all variables. These are the visible ones: a name that is visible is not declared
again, so that no variable hides another. -/
def values (s : Space) : List Value :=
  s.frames.flatMap fun f => f.entries.map fun e => e.2.value

theorem alike_self (h : ∀ v ∈ s.values, R v v) : s.Alike R s := by
  refine List.forall₂_same.mpr fun f hf => Dict.alike_self fun e he => ⟨rfl, h _ ?_⟩
  exact List.mem_flatMap.mpr ⟨f, hf, List.mem_map.mpr ⟨e, he, rfl⟩⟩

theorem Alike.imp (h : s.Alike R s') (hRS : ∀ v v', R v v' → S v v') : s.Alike S s' :=
  List.Forall₂.imp (fun _ _ hf => hf.imp fun _ _ hvar => ⟨hvar.1, hRS _ _ hvar.2⟩) h

theorem alike_empty : empty.Alike R empty := .cons Dict.alike_empty .nil

theorem Alike.push (h : s.Alike R s') : s.push.Alike R s'.push := .cons Dict.alike_empty h

theorem Alike.pop (h : s.Alike R s') : s.pop.Alike R s'.pop := by
  obtain ⟨inner, outer⟩ := s
  obtain ⟨inner', outer'⟩ := s'
  obtain ⟨-, houter⟩ := List.forall₂_cons.mp h
  cases houter with
  | nil => exact h
  | cons hf hfs => exact .cons hf hfs

theorem findIn_alike {frames frames' : List Frame} (key : String)
    (h : List.Forall₂ (Dict.Alike (Variable.Alike R)) frames frames') :
    Option.Rel (Variable.Alike R) (findIn key frames) (findIn key frames') := by
  unfold findIn
  induction h with
  | nil => exact .none
  | cons hf _ ih =>
    rw [List.findSome?_cons, List.findSome?_cons]
    rcases rel_eq_or (hf.find? key) with ⟨h₁, h₂⟩ | ⟨_, _, h₁, h₂, hvar⟩
    · rw [h₁, h₂]
      exact ih
    · rw [h₁, h₂]
      exact .some hvar

theorem Alike.get? (h : s.Alike R s') (name : String) :
    Option.Rel (Variable.Alike R) (s.get? name) (s'.get? name) := findIn_alike _ h

theorem Alike.value? (h : s.Alike R s') (name : String) :
    Option.Rel R (s.value? name) (s'.value? name) :=
  rel_map (h.get? name) fun _ _ hvar => hvar.2

theorem Alike.declare? (h : s.Alike R s') (name : String) (type : Ty) {v v' : Value}
    (hv : R v v') :
    Option.Rel (Alike R) (s.declare? name type v) (s'.declare? name type v') := by
  have hcontains : s'.contains name = s.contains name := rel_isSome (h.get? name)
  unfold Space.declare?
  rw [hcontains]
  cases s.contains name with
  | true => exact .none
  | false =>
    obtain ⟨hinner, houter⟩ := List.forall₂_cons.mp h
    exact .some (.cons (hinner.insert _ ⟨rfl, hv⟩) houter)

theorem setIn_alike {frames frames' : List Frame} (key : String) {v v' : Value} (hv : R v v')
    (h : List.Forall₂ (Dict.Alike (Variable.Alike R)) frames frames') :
    Option.Rel (List.Forall₂ (Dict.Alike (Variable.Alike R))) (setIn key v frames)
      (setIn key v' frames') := by
  induction h with
  | nil => exact .none
  | @cons f f' fs fs' hf hfs ih =>
    unfold setIn
    rcases rel_eq_or (hf.find? key) with ⟨h₁, h₂⟩ | ⟨_, _, h₁, h₂, hvar⟩
    · rw [h₁, h₂]
      exact rel_map ih fun _ _ hrest => .cons hf hrest
    · rw [h₁, h₂]
      exact .some (.cons (hf.insert key ⟨hvar.1, hv⟩) hfs)

theorem Alike.set? (h : s.Alike R s') (name : String) {v v' : Value} (hv : R v v') :
    Option.Rel (Alike R) (s.set? name v) (s'.set? name v') := by
  unfold Space.set?
  rcases rel_eq_or (setIn_alike (Text.lower name) hv h) with ⟨h₁, h₂⟩ | ⟨_, _, h₁, h₂, hframes⟩
  · rw [h₁, h₂]
    exact .none
  · rw [h₁, h₂]
    cases hframes with
    | nil => exact .none
    | cons hf hfs => exact .some (.cons hf hfs)

theorem Alike.snapshot (h : s.Alike R s') : s.snapshot.Alike R s'.snapshot := by
  refine .cons (List.rel_foldr ?_ Dict.alike_empty h) .nil
  intro f f' hf below below' hbelow
  exact hbelow.override hf

end Space

end WorldScript
