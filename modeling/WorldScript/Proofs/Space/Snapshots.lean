import WorldScript.Expr.Eval
import WorldScript.Proofs.Space.Alike

/-! # Spaces that are used

A space begins empty and is used by *accesses*: variables are declared, looked up and assigned, and
blocks are entered and left. A name is declared only where it is not visible, so it never stands in
two frames at a time. What an access replies depends on what the frames show, not on how they are
laid out. A snapshot shows the same in one frame, so it replies to all further accesses as the space
itself does, as long as they leave no block that was entered before the snapshot was taken.

* `Space.Access.apply`, `Space.Access.applyAll`: one access, and some in a row.
* `Space.Unshadowed`: all names are in lower case, and each is in at most one frame.
* `Space.Mirrors`: the innermost frames are the same, and those around them show the same.
* `Space.reached_faithful`: what holds of all spaces that are reached. -/

namespace WorldScript.Space

/-! ### Accesses -/

/-- A use of a space. -/
inductive Access
  | declare (name : String) (type : Ty) (v : Value)
  | get (name : String)
  | contains (name : String)
  | set (name : String) (v : Value)
  /-- Begins a block. -/
  | enter
  /-- Ends a block. -/
  | leave

/-- What is told to the one who uses a space. -/
inductive Reply
  | declared (accepted : Bool)
  | found (var : Option Variable)
  | visible (answer : Bool)
  /-- The variable has the value, or the message of the failure. -/
  | assigned (failure : Option String)
  | done

/-- The access was refused. -/
def Reply.Refuses : Reply → Prop
  | declared accepted => accepted = false
  | assigned failure => failure ≠ none
  | _ => False

namespace Access

/-- The new space and one reply, or the old one and the other reply. -/
def conclude (s : Space) (accepted refused : Reply) : Option Space → Reply × Space
  | some t => (accepted, t)
  | none => (refused, s)

/-- The reply to an access, and the space after it. -/
def apply (s : Space) : Access → Reply × Space
  | declare name type v =>
    conclude s (.declared true) (.declared false) (s.declare? name type v)
  | get name => (.found (s.get? name), s)
  | contains name => (.visible (s.contains name), s)
  | set name v =>
    conclude s (.assigned none) (.assigned (some (EvalError.undeclared name).message))
      (s.set? name v)
  | enter => (.done, s.push)
  | leave => (.done, s.pop)

/-- The replies to accesses one after the other, and the space after them. -/
def applyAll (s : Space) : List Access → List Reply × Space
  | [] => ([], s)
  | a :: rest =>
    let next := applyAll (apply s a).2 rest
    ((apply s a).1 :: next.1, next.2)

/-- The number of open blocks after an access. A block that was not entered cannot be left. -/
def blocks? (n : Nat) : Access → Option Nat
  | enter => some (n + 1)
  | leave => if n = 0 then none else some (n - 1)
  | _ => some n

end Access

/-- The space is what some accesses make of the empty one. -/
def Reached (s : Space) : Prop := ∃ accesses, s = (Access.applyAll .empty accesses).2

/-- The accesses leave only blocks that they entered. -/
def Nested (accesses : List Access) : Prop := (accesses.foldlM Access.blocks? 0).isSome

variable {s t : Space} {name key : String} {type : Ty} {v : Value}

/-! ### Refusals -/

theorem declare?_eq_none_iff : s.declare? name type v = none ↔ s.contains name = true := by
  unfold declare?
  split <;> simp_all

theorem setIn_eq_none {frames : List Frame} (h : findIn key frames = none) (v : Value) :
    setIn key v frames = none := by
  induction frames with
  | nil => rfl
  | cons f fs ih =>
    unfold findIn at h
    rw [List.findSome?_cons] at h
    split at h
    · cases h
    · rename_i hf
      simp only [setIn, hf, ih h, Option.map_none]

theorem set?_eq_none_iff : s.set? name v = none ↔ s.contains name = false := by
  unfold contains
  cases hget : s.get? name with
  | none =>
    have hnone : s.set? name v = none := by
      unfold set?
      rw [setIn_eq_none hget]
    simp [hnone]
  | some var =>
    obtain ⟨t, ht, -⟩ := set?_of_get? hget v
    simp [ht]

/-- What is refused changes nothing. -/
theorem Access.apply_of_refuses {a : Access} (h : (Access.apply s a).1.Refuses) :
    (Access.apply s a).2 = s := by
  have hconclude : ∀ {accepted refused : Reply} {result : Option Space}, ¬ accepted.Refuses →
      (conclude s accepted refused result).1.Refuses →
      (conclude s accepted refused result).2 = s := by
    intro accepted refused result haccepted hrefuses
    cases result with
    | none => rfl
    | some t => exact absurd hrefuses haccepted
  cases a with
  | declare name type v => exact hconclude (by simp [Reply.Refuses]) h
  | set name v => exact hconclude (by simp [Reply.Refuses]) h
  | get | contains => rfl
  | enter | leave => exact h.elim

/-- An assignment changes the value of one variable, and no type. -/
theorem get?_set? (h : s.set? name v = some t) : t.types = s.types ∧
    (∃ old, s.get? name = some old ∧ t.get? name = some { old with value := v }) ∧
    ∀ other, Text.lower other ≠ Text.lower name → t.get? other = s.get? other := by
  refine ⟨types_set? h, ?_, fun other => get?_set?_of_ne h⟩
  cases hget : s.get? name with
  | none =>
    have hcontains : s.contains name = false := by simp [contains, hget]
    rw [set?_eq_none_iff.mpr hcontains] at h
    cases h
  | some old =>
    obtain ⟨t', ht', hold⟩ := set?_of_get? hget v
    obtain rfl : t' = t := Option.some.inj (ht'.symm.trans h)
    exact ⟨old, rfl, hold⟩

/-! ### No name in two frames -/

/-- The frames have no name in common, in whatever case it is written. -/
def NamesApart (f g : Frame) : Prop :=
  ∀ key other, f.contains key = true → g.contains other = true → Text.lower key ≠ Text.lower other

/-- Names are in lower case, and no name has a type in two frames. -/
structure Unshadowed (s : Space) : Prop where
  lower : ∀ T ∈ s.types, ∀ key, T key ≠ none → Text.lower key = key
  apart : s.types.Pairwise fun T U => ∀ key, T key = none ∨ U key = none

theorem typesOf_ne_none {f : Frame} (h : f.contains key = true) : typesOf f key ≠ none := by
  intro hnone
  rw [Dict.contains, Option.isSome_iff_ne_none] at h
  exact h (Option.map_eq_none_iff.mp hnone)

namespace Unshadowed

theorem empty : Unshadowed .empty := by
  constructor
  · intro T hT key hkey
    obtain rfl : T = typesOf .empty := List.mem_singleton.mp hT
    exact absurd rfl hkey
  · exact List.pairwise_singleton _ _

theorem congr (h : s.Unshadowed) (htypes : t.types = s.types) : t.Unshadowed :=
  ⟨htypes ▸ h.lower, htypes ▸ h.apart⟩

theorem push (h : s.Unshadowed) : s.push.Unshadowed := by
  constructor
  · intro T hT key hkey
    rcases List.mem_cons.mp hT with rfl | hT
    · exact absurd rfl hkey
    · exact h.lower T hT key hkey
  · exact List.pairwise_cons.mpr ⟨fun T _ key => Or.inl rfl, h.apart⟩

theorem pop (h : s.Unshadowed) : s.pop.Unshadowed := by
  have hsub : s.pop.types.Sublist s.types := by
    unfold Space.pop
    split
    · exact List.Sublist.refl _
    · rename_i f fs houter
      rw [types_eq_cons s, houter]
      exact List.sublist_cons_self _ _
  exact ⟨fun T hT => h.lower T (hsub.subset hT), h.apart.sublist hsub⟩

theorem declare? (h : s.Unshadowed) (hs : s.declare? name type v = some t) : t.Unshadowed := by
  obtain ⟨houter, hinner⟩ := types_declare? hs
  have hhidden : ∀ T ∈ s.types, T (Text.lower name) = none := by
    have hnone := get?_eq_none_iff.mp (declare?_eq_some hs).1
    rw [type?_eq] at hnone
    exact List.findSome?_eq_none_iff.mp hnone
  obtain ⟨hlower, hapart⟩ := h
  rw [types_eq_cons] at hlower hapart hhidden
  rw [List.pairwise_cons] at hapart
  constructor
  · rw [types_eq_cons, houter, hinner]
    intro T hT key hkey
    rcases List.mem_cons.mp hT with rfl | hT
    · by_cases heq : key = Text.lower name
      · rw [heq, Text.lower_lower]
      · exact hlower _ List.mem_cons_self key (by simpa [heq] using hkey)
    · exact hlower T (List.mem_cons_of_mem _ hT) key hkey
  · rw [types_eq_cons, houter, hinner]
    refine List.pairwise_cons.mpr ⟨?_, hapart.2⟩
    intro T hT key
    by_cases heq : key = Text.lower name
    · exact Or.inr (heq ▸ hhidden T (List.mem_cons_of_mem _ hT))
    · simpa [heq] using hapart.1 T hT key

theorem conclude (h : s.Unshadowed) (accepted refused : Reply) {result : Option Space}
    (hresult : ∀ t, result = some t → t.Unshadowed) :
    (Access.conclude s accepted refused result).2.Unshadowed := by
  cases result with
  | none => exact h
  | some t => exact hresult t rfl

/-- An access keeps names apart. -/
theorem apply (h : s.Unshadowed) (a : Access) : (Access.apply s a).2.Unshadowed := by
  cases a with
  | declare name type v => exact h.conclude _ _ fun t ht => h.declare? ht
  | set name v => exact h.conclude _ _ fun t ht => h.congr (types_set? ht)
  | get | contains => exact h
  | enter => exact h.push
  | leave => exact h.pop

theorem applyAll (h : s.Unshadowed) (accesses : List Access) :
    (Access.applyAll s accesses).2.Unshadowed := by
  induction accesses generalizing s with
  | nil => exact h
  | cons a rest ih => exact ih (h.apply a)

theorem lower_of_contains (h : s.Unshadowed) {f : Frame} (hf : f ∈ s.frames)
    (hkey : f.contains key = true) : Text.lower key = key :=
  h.lower (typesOf f) (List.mem_map_of_mem hf) key (typesOf_ne_none hkey)

theorem namesApart (h : s.Unshadowed) : s.frames.Pairwise NamesApart := by
  refine (List.pairwise_map.mp h.apart).imp_of_mem ?_
  intro f g hf hg hapart key other hkey hother heq
  rw [h.lower_of_contains hf hkey, h.lower_of_contains hg hother] at heq
  subst heq
  rcases hapart key with hnone | hnone
  · exact typesOf_ne_none hkey hnone
  · exact typesOf_ne_none hother hnone

end Unshadowed

/-! ### Spaces that show the same -/

/-- The innermost `n` frames are the same, and the frames around them show the same. -/
inductive Mirrors : Nat → List Frame → List Frame → Prop
  | base {fs gs : List Frame} : fs ≠ [] → gs ≠ [] → (∀ key, findIn key fs = findIn key gs) →
    Mirrors 0 fs gs
  | block {n : Nat} {fs gs : List Frame} (f : Frame) : Mirrors n fs gs →
    Mirrors (n + 1) (f :: fs) (f :: gs)

namespace Mirrors

variable {n : Nat} {fs gs : List Frame}

theorem findIn_eq (h : Mirrors n fs gs) (key : String) : findIn key fs = findIn key gs := by
  induction h with
  | base _ _ hsame => exact hsame key
  | block f _ ih =>
    unfold findIn at ih ⊢
    rw [List.findSome?_cons, List.findSome?_cons, ih]

theorem ne_nil (h : Mirrors n fs gs) : fs ≠ [] ∧ gs ≠ [] := by
  cases h with
  | base hfs hgs _ => exact ⟨hfs, hgs⟩
  | block f _ => exact ⟨List.cons_ne_nil _ _, List.cons_ne_nil _ _⟩

theorem setIn (h : Mirrors n fs gs) (key : String) (v : Value) :
    Option.Rel (Mirrors n) (Space.setIn key v fs) (Space.setIn key v gs) := by
  induction h with
  | @base fs gs hfs hgs hsame =>
    cases hfind : findIn key fs with
    | none =>
      rw [setIn_eq_none hfind, setIn_eq_none ((hsame key).symm.trans hfind)]
      exact .none
    | some var =>
      obtain ⟨fs', hset, hnew⟩ := setIn_of_findIn hfind v
      obtain ⟨gs', hset', hnew'⟩ := setIn_of_findIn ((hsame key).symm.trans hfind) v
      rw [hset, hset']
      refine .some (.base ?_ ?_ ?_)
      · rintro rfl
        cases hnew
      · rintro rfl
        cases hnew'
      · intro other
        by_cases hother : other = key
        · rw [hother, hnew, hnew']
        · rw [(findIn_setIn hset).2 other hother, (findIn_setIn hset').2 other hother, hsame]
  | @block n fs gs f h ih =>
    unfold Space.setIn
    cases hfind : f.find? key with
    | some var => exact .some (.block _ h)
    | none => exact rel_map ih fun _ _ hnext => .block f hnext

theorem insert {f g : Frame} (h : Mirrors n (f :: fs) (g :: gs)) (key : String) (var : Variable) :
    Mirrors n (f.insert key var :: fs) (g.insert key var :: gs) := by
  cases h with
  | base _ _ hsame =>
    refine .base (List.cons_ne_nil _ _) (List.cons_ne_nil _ _) ?_
    intro other
    rw [findIn_insert, findIn_insert, hsame]
  | block f h => exact .block _ h

variable (h : Mirrors n s.frames t.frames)
include h

theorem get? (name : String) : s.get? name = t.get? name := h.findIn_eq _

theorem contains (name : String) : s.contains name = t.contains name := by
  unfold Space.contains
  rw [h.get?]

theorem declare? (name : String) (type : Ty) (v : Value) :
    Option.Rel (fun s t => Mirrors n s.frames t.frames) (s.declare? name type v)
      (t.declare? name type v) := by
  unfold Space.declare?
  rw [h.contains]
  split
  · exact .none
  · exact .some (h.insert _ _)

theorem set? (name : String) (v : Value) :
    Option.Rel (fun s t => Mirrors n s.frames t.frames) (s.set? name v) (t.set? name v) := by
  have hset := h.setIn (Text.lower name) v
  unfold Space.set?
  rcases rel_eq_or hset with ⟨hs, ht⟩ | ⟨fs, gs, hs, ht, hfg⟩
  · rw [hs, ht]
    exact .none
  · rw [hs, ht]
    obtain ⟨f, fs, rfl⟩ := List.exists_cons_of_ne_nil hfg.ne_nil.1
    obtain ⟨g, gs, rfl⟩ := List.exists_cons_of_ne_nil hfg.ne_nil.2
    exact .some hfg

theorem push : Mirrors (n + 1) s.push.frames t.push.frames := .block .empty h

end Mirrors

theorem frames_pop (h : s.outer ≠ []) : s.pop.frames = s.outer := by
  unfold pop
  split
  · rename_i hnil
    exact absurd hnil h
  · rename_i f fs hcons
    exact hcons.symm

theorem Mirrors.pop {n : Nat} (h : Mirrors (n + 1) s.frames t.frames) :
    Mirrors n s.pop.frames t.pop.frames := by
  obtain ⟨inner, outer⟩ := s
  obtain ⟨inner', outer'⟩ := t
  cases h with
  | block _ h =>
    rw [frames_pop h.ne_nil.1, frames_pop h.ne_nil.2]
    exact h

theorem Mirrors.conclude {n : Nat} {x y : Option Space} (h : Mirrors n s.frames t.frames)
    (hxy : Option.Rel (fun s t => Mirrors n s.frames t.frames) x y) (accepted refused : Reply) :
    (Access.conclude s accepted refused x).1 = (Access.conclude t accepted refused y).1 ∧
      Mirrors n (Access.conclude s accepted refused x).2.frames
        (Access.conclude t accepted refused y).2.frames := by
  cases hxy with
  | none => exact ⟨rfl, h⟩
  | some hnext => exact ⟨rfl, hnext⟩

/-- An access has the same reply, and what is shown remains the same. -/
theorem Mirrors.apply {n m : Nat} (h : Mirrors n s.frames t.frames) {a : Access}
    (ha : a.blocks? n = some m) : (Access.apply s a).1 = (Access.apply t a).1 ∧
      Mirrors m (Access.apply s a).2.frames (Access.apply t a).2.frames := by
  cases a with
  | enter =>
    obtain rfl : n + 1 = m := Option.some.inj ha
    exact ⟨rfl, h.push⟩
  | leave =>
    unfold Access.blocks? at ha
    by_cases hn : n = 0
    · rw [if_pos hn] at ha
      cases ha
    · rw [if_neg hn, Option.some.injEq] at ha
      obtain rfl : n = m + 1 := by omega
      exact ⟨rfl, h.pop⟩
  | declare name type v =>
    obtain rfl : n = m := Option.some.inj ha
    exact h.conclude (h.declare? name type v) _ _
  | set name v =>
    obtain rfl : n = m := Option.some.inj ha
    exact h.conclude (h.set? name v) _ _
  | get name =>
    obtain rfl : n = m := Option.some.inj ha
    exact ⟨congrArg Reply.found (h.get? name), h⟩
  | contains name =>
    obtain rfl : n = m := Option.some.inj ha
    exact ⟨congrArg Reply.visible (h.contains name), h⟩

theorem Mirrors.applyAll {n : Nat} (h : Mirrors n s.frames t.frames) {accesses : List Access}
    (hblocks : (accesses.foldlM Access.blocks? n).isSome) :
    (Access.applyAll s accesses).1 = (Access.applyAll t accesses).1 := by
  induction accesses generalizing n s t with
  | nil => rfl
  | cons a rest ih =>
    rw [List.foldlM_cons] at hblocks
    cases ha : a.blocks? n with
    | none =>
      rw [ha] at hblocks
      cases hblocks
    | some m =>
      rw [ha] at hblocks
      obtain ⟨hreply, hnext⟩ := h.apply ha
      simp only [Access.applyAll, hreply, ih hnext hblocks]

/-- A snapshot shows what the space shows. -/
theorem mirrors_snapshot (s : Space) : Mirrors 0 s.snapshot.frames s.frames :=
  .base (List.cons_ne_nil _ _) (List.cons_ne_nil _ _) (findIn_snapshot s)

/-- **Names are never shadowed, and snapshots are faithful.** A space that is reached has a frame,
and its frames have no names in common. An assignment changes the value of one variable and no type.
A declaration is refused if the name is visible and an assignment if it is not, and then nothing
changes. A snapshot has one frame, and replies to all accesses that leave only blocks that they
entered as the space itself does. -/
theorem reached_faithful (hs : s.Reached) :
    (1 ≤ s.depth ∧ s.frames.Pairwise NamesApart) ∧
    (∀ name v t, s.set? name v = some t → t.types = s.types ∧
      (∃ old, s.get? name = some old ∧ t.get? name = some { old with value := v }) ∧
      ∀ other, Text.lower other ≠ Text.lower name → t.get? other = s.get? other) ∧
    (∀ name type v, s.declare? name type v = none ↔ s.contains name = true) ∧
    (∀ name v, s.set? name v = none ↔ s.contains name = false) ∧
    (∀ a : Access, (Access.apply s a).1.Refuses → (Access.apply s a).2 = s) ∧
    s.snapshot.depth = 1 ∧
    ∀ accesses, Nested accesses →
      (Access.applyAll s.snapshot accesses).1 = (Access.applyAll s accesses).1 := by
  obtain ⟨before, rfl⟩ := hs
  refine ⟨⟨?_, ?_⟩, fun _ _ _ => get?_set?, fun _ _ _ => declare?_eq_none_iff,
    fun _ _ => set?_eq_none_iff, fun _ => Access.apply_of_refuses, rfl, ?_⟩
  · exact Nat.le_add_left 1 _
  · exact (Unshadowed.empty.applyAll before).namesApart
  · intro accesses hnested
    exact (mirrors_snapshot _).applyAll hnested

/-- A variable, and another one in a block. -/
def inBlock : Space :=
  (Access.applyAll .empty [.declare "Gold" .boolean .null, .enter, .declare "hp" .text .null]).2

theorem reached_faithful_inBlock :
    inBlock.frames.Pairwise NamesApart ∧
    (Access.applyAll inBlock.snapshot
      [.set "GOLD" (.boolean true), .enter, .declare "gold" .text .null,
        .declare "mp" .text .null, .leave, .get "gold", .contains "mp"]).1 =
      [.assigned none, .done, .declared false, .declared true, .done,
        .found (some ⟨.boolean, .boolean true⟩), .visible false] := by
  obtain ⟨⟨-, hapart⟩, -, -, -, -, -, hreplies⟩ := reached_faithful (s := inBlock) ⟨_, rfl⟩
  refine ⟨hapart, (hreplies _ ?_).trans rfl⟩
  unfold Nested
  rfl

end WorldScript.Space
