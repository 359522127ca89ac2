import WorldScript.Scope
import WorldScript.Name
import WorldScript.Space

/-! # The types in a space

A space is looked at in two ways. The *types* of its frames say which names it declares and as what;
an assignment never changes them, and what a block does to them ends with the block. The bindings
that a space *holds*, in whatever frame, are what an invariant about values speaks of.

* `Space.types_declare?`, `Space.types_set?`, `Space.types_pop`: what the operations do to the
  types.
* `Space.get?_snapshot`: the variables that can be seen are the same in a snapshot.
* `Space.Agrees`: the space declares what a scope has, and perhaps the slot for the answer. -/

namespace WorldScript

namespace Dict

variable {α : Type}

theorem find?_insert (d : Dict α) (key other : String) (value : α) :
    (d.insert key value).find? other = if other = key then some value else d.find? other := by
  split
  · rename_i h
    rw [h, find?_insert_self]
  · rename_i h
    exact find?_insert_of_ne d value h

theorem find?_override (d top : Dict α) (key : String) :
    (d.override top).find? key = (top.find? key).or (d.find? key) := by
  obtain ⟨entries⟩ := top
  simp only [override, find?]
  induction entries with
  | nil => rfl
  | cons e rest ih =>
    obtain ⟨k, v⟩ := e
    have hinsert : ∀ d' : Dict α, (d'.insert k v).entries.lookup key =
        if key = k then some v else d'.entries.lookup key := fun d' => find?_insert d' k key v
    rw [List.foldr_cons, hinsert, List.lookup_cons, ih]
    by_cases hk : key = k
    · simp [hk]
    · simp [hk, show (key == k) = false by simpa using hk]

end Dict

theorem Name.ne_slot_of_isReserved {name : String} (h : Name.isReserved name = false) :
    Text.lower name ≠ Name.returnSlot := by
  intro heq
  rw [Name.isReserved, heq] at h
  revert h
  decide

namespace Space

/-- The types of the variables of a frame. -/
def typesOf (f : Frame) (key : String) : Option Ty := (f.find? key).map (·.type)

/-- The types of the variables of all frames, the innermost first. -/
def types (s : Space) : List (String → Option Ty) := s.frames.map typesOf

/-- The declared type of a visible variable. -/
def type? (s : Space) (name : String) : Option Ty := (s.get? name).map (·.type)

variable {s t : Space} {name key : String} {type : Ty} {v : Value} {var : Variable}

theorem types_eq_cons (s : Space) : s.types = typesOf s.inner :: s.outer.map typesOf := rfl

theorem typesOf_findIn (key : String) (frames : List Frame) :
    (findIn key frames).map (·.type) = (frames.map typesOf).findSome? (· key) := by
  unfold findIn
  induction frames with
  | nil => rfl
  | cons f fs ih =>
    rw [List.map_cons, List.findSome?_cons, List.findSome?_cons, ← ih]
    unfold typesOf
    cases f.find? key <;> rfl

theorem type?_eq (s : Space) (name : String) :
    s.type? name = s.types.findSome? (· (Text.lower name)) := typesOf_findIn _ _

theorem type?_congr (h : s.types = t.types) (name : String) : s.type? name = t.type? name := by
  rw [type?_eq, type?_eq, h]

theorem get?_lower (s : Space) (name : String) : s.get? (Text.lower name) = s.get? name := by
  simp only [get?, Text.lower_lower]

theorem get?_eq_none_iff : s.get? name = none ↔ s.type? name = none := by
  simp [type?]

theorem get?_of_type? (h : s.type? name = some type) : ∃ v, s.get? name = some ⟨type, v⟩ := by
  simp only [type?, Option.map_eq_some_iff] at h
  obtain ⟨⟨t, v⟩, hget, rfl⟩ := h
  exact ⟨v, hget⟩

/-! ### Blocks -/

@[simp] theorem get?_push (s : Space) (name : String) : s.push.get? name = s.get? name := rfl

/-- Leaving a block brings back the types from before it. -/
theorem types_pop (h : s.outer.map typesOf = t.types) : s.pop.types = t.types := by
  rw [← h]
  unfold pop
  split
  · rename_i houter
    rw [houter, types_eq_cons] at h
    cases h
  · rename_i f fs houter
    rw [houter]
    rfl

/-! ### Declarations -/

theorem declare?_eq_some (h : s.declare? name type v = some t) :
    s.get? name = none ∧ t = ⟨s.inner.insert (Text.lower name) ⟨type, v⟩, s.outer⟩ := by
  unfold declare? at h
  split at h
  · cases h
  · rename_i hcontains
    cases h
    exact ⟨by simpa [contains] using hcontains, rfl⟩

theorem declare?_of_get? (h : s.get? name = none) (type : Ty) (v : Value) :
    s.declare? name type v = some ⟨s.inner.insert (Text.lower name) ⟨type, v⟩, s.outer⟩ := by
  unfold declare?
  rw [if_neg]
  simp [contains, h]

theorem types_declare? (h : s.declare? name type v = some t) :
    t.outer.map typesOf = s.outer.map typesOf ∧
      typesOf t.inner =
        fun key => if key = Text.lower name then some type else typesOf s.inner key := by
  obtain ⟨-, rfl⟩ := declare?_eq_some h
  refine ⟨rfl, ?_⟩
  funext key
  unfold typesOf
  rw [Dict.find?_insert]
  split <;> rfl

theorem findIn_insert (f : Frame) (fs : List Frame) (key other : String) (var : Variable) :
    findIn other (f.insert key var :: fs) =
      if other = key then some var else findIn other (f :: fs) := by
  unfold findIn
  rw [List.findSome?_cons, List.findSome?_cons, Dict.find?_insert]
  by_cases heq : other = key
  · rw [if_pos heq, if_pos heq]
  · rw [if_neg heq, if_neg heq]

theorem get?_declare? (h : s.declare? name type v = some t) (other : String) :
    t.get? other = if Text.lower other = Text.lower name then some ⟨type, v⟩ else s.get? other := by
  obtain ⟨-, rfl⟩ := declare?_eq_some h
  exact findIn_insert _ _ _ _ _

/-! ### Assignments -/

theorem types_setIn {frames frames' : List Frame} (h : setIn key v frames = some frames') :
    frames'.map typesOf = frames.map typesOf := by
  induction frames generalizing frames' with
  | nil => cases h
  | cons f fs ih =>
    simp only [setIn] at h
    split at h
    · rename_i var hfind
      cases h
      rw [List.map_cons, List.map_cons]
      congr 1
      funext other
      unfold typesOf
      rw [Dict.find?_insert]
      split
      · rename_i heq
        rw [heq, hfind]
        rfl
      · rfl
    · simp only [Option.map_eq_some_iff] at h
      obtain ⟨more, hmore, rfl⟩ := h
      rw [List.map_cons, List.map_cons, ih hmore]

theorem set?_eq_some (h : s.set? name v = some t) :
    setIn (Text.lower name) v s.frames = some t.frames := by
  unfold set? at h
  split at h
  · rename_i f fs hset
    cases h
    exact hset
  · cases h

/-- An assignment keeps all types. -/
theorem types_set? (h : s.set? name v = some t) : t.types = s.types := types_setIn (set?_eq_some h)

theorem setIn_of_findIn {frames : List Frame} (h : findIn key frames = some var) (v : Value) :
    ∃ frames', setIn key v frames = some frames' ∧
      findIn key frames' = some { var with value := v } := by
  unfold findIn at h ⊢
  induction frames with
  | nil => cases h
  | cons f fs ih =>
    rw [List.findSome?_cons] at h
    cases hfind : f.find? key with
    | some var' =>
      simp only [hfind, Option.some.injEq] at h
      subst h
      refine ⟨f.insert key { var' with value := v } :: fs, ?_, ?_⟩
      · simp only [setIn, hfind]
      · rw [List.findSome?_cons, Dict.find?_insert_self]
    | none =>
      simp only [hfind] at h
      obtain ⟨more, hmore, hfound⟩ := ih h
      refine ⟨f :: more, ?_, ?_⟩
      · simp only [setIn, hfind, hmore, Option.map_some]
      · simp only [List.findSome?_cons, hfind, hfound]

/-- A visible variable can be assigned to. -/
theorem set?_of_get? (h : s.get? name = some var) (v : Value) :
    ∃ t, s.set? name v = some t ∧ t.get? name = some { var with value := v } := by
  obtain ⟨frames', hset, hfind⟩ := setIn_of_findIn h v
  cases frames' with
  | nil => cases hfind
  | cons f fs =>
    refine ⟨⟨f, fs⟩, ?_, hfind⟩
    unfold set?
    rw [hset]

theorem findIn_setIn {frames frames' : List Frame} {goal : String}
    (h : setIn goal v frames = some frames') :
    (∃ type, findIn goal frames' = some ⟨type, v⟩) ∧
      ∀ other, other ≠ goal → findIn other frames' = findIn other frames := by
  unfold findIn
  induction frames generalizing frames' with
  | nil => cases h
  | cons f fs ih =>
    simp only [setIn] at h
    split at h
    · rename_i old hfind
      cases h
      refine ⟨⟨old.type, ?_⟩, ?_⟩
      · rw [List.findSome?_cons, Dict.find?_insert_self]
      · intro other hne
        rw [List.findSome?_cons, List.findSome?_cons, Dict.find?_insert_of_ne _ _ hne]
    · rename_i hfind
      simp only [Option.map_eq_some_iff] at h
      obtain ⟨more, hmore, rfl⟩ := h
      obtain ⟨⟨type, hold⟩, hothers⟩ := ih hmore
      refine ⟨⟨type, ?_⟩, ?_⟩
      · rw [List.findSome?_cons, hfind]
        exact hold
      · intro other hne
        rw [List.findSome?_cons, List.findSome?_cons, hothers other hne]

theorem value?_set?_self (h : s.set? name v = some t) : t.value? name = some v := by
  obtain ⟨⟨type, hold⟩, -⟩ := findIn_setIn (set?_eq_some h)
  rw [value?, get?, hold]
  rfl

theorem get?_set?_of_ne {other : String} (h : s.set? name v = some t)
    (hne : Text.lower other ≠ Text.lower name) : t.get? other = s.get? other :=
  (findIn_setIn (set?_eq_some h)).2 _ hne

/-- Leaving a block shows the variables that were not of the block. -/
theorem get?_pop (h : s.inner.find? (Text.lower name) = none) : s.pop.get? name = s.get? name := by
  unfold pop
  split
  · rfl
  · rename_i f fs houter
    unfold get? findIn frames
    rw [houter, List.findSome?_cons (a := s.inner), h]

/-! ### Snapshots -/

theorem find?_foldr_override (key : String) (frames : List Frame) :
    (frames.foldr (fun f all => all.override f) (.empty : Frame)).find? key =
      findIn key frames := by
  unfold findIn
  induction frames with
  | nil => rfl
  | cons f fs ih =>
    rw [List.foldr_cons, Dict.find?_override, ih, List.findSome?_cons]
    cases f.find? key <;> rfl

theorem findIn_snapshot (s : Space) (key : String) :
    findIn key s.snapshot.frames = findIn key s.frames := by
  show [s.snapshot.inner].findSome? (·.find? key) = _
  rw [List.findSome?_cons, snapshot, find?_foldr_override]
  cases findIn key s.frames <;> rfl

/-- A snapshot shows the variables that could be seen. -/
@[simp] theorem get?_snapshot (s : Space) (name : String) : s.snapshot.get? name = s.get? name :=
  findIn_snapshot s _

/-! ### Held bindings -/

/-- Some frame of the space has the variable. -/
def Holds (s : Space) (key : String) (var : Variable) : Prop :=
  ∃ f ∈ s.frames, f.find? key = some var

theorem holds_of_findIn (h : findIn key s.frames = some var) : s.Holds key var := by
  obtain ⟨f, hf, hfind⟩ := List.exists_of_findSome?_eq_some h
  exact ⟨f, hf, hfind⟩

theorem holds_of_get? (h : s.get? name = some var) : s.Holds (Text.lower name) var :=
  holds_of_findIn h

theorem not_holds_empty : ¬ empty.Holds key var := by
  rintro ⟨f, hf, hfind⟩
  rw [show f = .empty from List.mem_singleton.mp hf] at hfind
  cases hfind

theorem Holds.of_push (h : s.push.Holds key var) : s.Holds key var := by
  obtain ⟨f, hf, hfind⟩ := h
  rcases List.mem_cons.mp hf with rfl | hf
  · cases hfind
  · exact ⟨f, hf, hfind⟩

theorem Holds.of_pop (h : s.pop.Holds key var) : s.Holds key var := by
  obtain ⟨f, hf, hfind⟩ := h
  refine ⟨f, ?_, hfind⟩
  unfold pop at hf
  split at hf
  · exact hf
  · rename_i f' fs houter
    refine List.mem_cons_of_mem _ ?_
    rw [houter]
    exact hf

theorem Holds.of_declare? (hs : s.declare? name type v = some t) (h : t.Holds key var) :
    (key = Text.lower name ∧ var = ⟨type, v⟩) ∨ s.Holds key var := by
  obtain ⟨-, rfl⟩ := declare?_eq_some hs
  obtain ⟨f, hf, hfind⟩ := h
  rcases List.mem_cons.mp hf with rfl | hf
  · rw [Dict.find?_insert] at hfind
    split at hfind
    · rename_i hkey
      cases hfind
      exact Or.inl ⟨hkey, rfl⟩
    · exact Or.inr ⟨s.inner, List.mem_cons_self, hfind⟩
  · exact Or.inr ⟨f, List.mem_cons_of_mem _ hf, hfind⟩

theorem Holds.of_setIn {frames frames' : List Frame} {goal : String}
    (hs : setIn goal v frames = some frames') (h : ∃ f ∈ frames', f.find? key = some var) :
    (key = goal ∧ ∃ old, findIn goal frames = some old ∧ var = { old with value := v }) ∨
      ∃ f ∈ frames, f.find? key = some var := by
  unfold findIn
  induction frames generalizing frames' with
  | nil => cases hs
  | cons f fs ih =>
    rw [List.findSome?_cons]
    obtain ⟨g, hg, hfind⟩ := h
    simp only [setIn] at hs
    cases hold : f.find? goal with
    | some old =>
      simp only [hold, Option.some.injEq] at hs
      subst hs
      rcases List.mem_cons.mp hg with rfl | hg
      · rw [Dict.find?_insert] at hfind
        split at hfind
        · rename_i hkey
          cases hfind
          exact Or.inl ⟨hkey, old, rfl, rfl⟩
        · exact Or.inr ⟨f, List.mem_cons_self, hfind⟩
      · exact Or.inr ⟨g, List.mem_cons_of_mem _ hg, hfind⟩
    | none =>
      simp only [hold, Option.map_eq_some_iff] at hs
      obtain ⟨more, hmore, rfl⟩ := hs
      rcases List.mem_cons.mp hg with rfl | hg
      · exact Or.inr ⟨g, List.mem_cons_self, hfind⟩
      · rcases ih hmore ⟨g, hg, hfind⟩ with hnew | ⟨f', hf', hfind'⟩
        · exact Or.inl hnew
        · exact Or.inr ⟨f', List.mem_cons_of_mem _ hf', hfind'⟩

theorem Holds.of_set? (hs : s.set? name v = some t) (h : t.Holds key var) :
    (key = Text.lower name ∧ s.type? name = some var.type ∧ var.value = v) ∨ s.Holds key var := by
  rcases Holds.of_setIn (set?_eq_some hs) h with ⟨hkey, old, hold, rfl⟩ | h
  · refine Or.inl ⟨hkey, ?_, rfl⟩
    simp only [type?, get?, hold, Option.map_some]
  · exact Or.inr h

theorem Holds.of_snapshot (h : s.snapshot.Holds key var) : s.Holds key var := by
  obtain ⟨f, hf, hfind⟩ := h
  rw [show f = s.snapshot.inner from List.mem_singleton.mp hf, snapshot,
    find?_foldr_override] at hfind
  exact holds_of_findIn hfind

/-! ### Agreement with a scope -/

/-- The space declares what the scope has, with the same types, and `slot` under the name of the
answer, which the scope does not have. -/
structure Agrees (slot : Option Ty) (scope : Scope) (s : Space) : Prop where
  hidden : scope.lookup Name.returnSlot = none
  types : ∀ name, s.type? name =
    if Text.lower name = Name.returnSlot then slot else scope.lookup name

theorem lower_returnSlot : Text.lower Name.returnSlot = Name.returnSlot := by decide

section Agrees

variable {slot : Option Ty} {scope : Scope}

theorem Agrees.congr (h : Agrees slot scope s) (ht : t.types = s.types) : Agrees slot scope t := by
  refine ⟨h.hidden, ?_⟩
  intro name
  rw [type?_congr ht, h.types name]

theorem Agrees.push (h : Agrees slot scope s) : Agrees slot scope s.push := ⟨h.hidden, h.types⟩

theorem Agrees.snapshot (h : Agrees slot scope s) : Agrees slot scope s.snapshot := by
  refine ⟨h.hidden, ?_⟩
  intro name
  rw [← h.types name, type?, get?_snapshot, type?]

theorem Agrees.declare (h : Agrees slot scope s) (hs : s.declare? name type v = some t)
    (hname : Text.lower name ≠ Name.returnSlot) : Agrees slot (scope.add name type) t := by
  constructor
  · rw [Scope.lookup_add_of_ne, h.hidden]
    exact fun heq => hname (heq.symm.trans lower_returnSlot)
  · intro other
    rw [type?, get?_declare? hs]
    by_cases heq : Text.lower other = Text.lower name
    · rw [if_pos heq, if_neg (heq ▸ hname), Scope.lookup, heq]
      exact (scope.lookup_add_self name type).symm
    · rw [if_neg heq, ← type?, h.types other, Scope.lookup_add_of_ne scope type heq]

/-- A name that the scope has is not that of the answer. -/
theorem Agrees.ne_slot (h : Agrees slot scope s) (hname : scope.lookup name = some type) :
    Text.lower name ≠ Name.returnSlot := by
  intro heq
  have hhidden := h.hidden
  rw [Scope.lookup, lower_returnSlot, ← heq] at hhidden
  rw [Scope.lookup, hhidden] at hname
  cases hname

theorem Agrees.type?_of_lookup (h : Agrees slot scope s) (hname : scope.lookup name = some type) :
    s.type? name = some type := by
  rw [h.types name, if_neg (h.ne_slot hname), hname]

theorem Agrees.get?_eq_none (h : Agrees slot scope s) (hname : scope.lookup name = none)
    (hslot : Text.lower name ≠ Name.returnSlot) : s.get? name = none := by
  rw [get?_eq_none_iff, h.types name, if_neg hslot, hname]

end Agrees

end Space

end WorldScript
