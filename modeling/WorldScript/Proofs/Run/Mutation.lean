import WorldScript.Proofs.Run.Failures
import WorldScript.Proofs.Run.Stores

/-! # Changes in place, and new bindings

A statement that changes a structural variable writes one cell, the one that the variable leads to,
and binds no variable to another value. So the change is seen through every variable, element or
waiting block that leads to the same cell. Only the removal at an index is different: it writes no
cell that was there, and binds the variable to a new one.

What is done to the contents is said by `Change.Acts`, which speaks of sequences and of what is
found under keys, and not of heaps.

* `Heap.Contents`, `Heap.Writes`: what a cell holds, and the writing of one cell.
* `Space.Rebinds`: the variable is bound to another value, where it was declared.
* `Machine.applyChange_effect`: the change of a target, by cases on the change.
* `Statement.change_effect`: the statement for a whole run, with the evaluation of the operands. -/

namespace WorldScript

/-! ### Dictionaries -/

namespace Dict

variable {α : Type} {d : Dict α} {key : String}

/-- The keys stand in their order, each of them once. -/
def Ordered (d : Dict α) : Prop := d.entries.Pairwise fun a b => a.1 < b.1

/-- The second dictionary has the given value for the key, or none, and is like the first one
otherwise. -/
structure Updates (d d' : Dict α) (key : String) (value : Option α) : Prop where
  found : d'.find? key = value
  others : ∀ other, other ≠ key → d'.find? other = d.find? other
  ordered : d.Ordered → d'.Ordered

theorem Ordered.insert (h : d.Ordered) (key : String) (value : α) : (d.insert key value).Ordered := by
  obtain ⟨entries⟩ := d
  unfold Ordered Dict.insert at *
  induction entries with
  | nil => exact List.pairwise_singleton _ _
  | cons first rest ih =>
    obtain ⟨k, v⟩ := first
    rw [List.pairwise_cons] at h
    dsimp only [insertEntry]
    split
    · rename_i hlt
      refine List.pairwise_cons.mpr ⟨?_, List.pairwise_cons.mpr h⟩
      intro e he
      rcases List.mem_cons.mp he with rfl | he
      · exact hlt
      · exact String.lt_trans hlt (h.1 e he)
    · split
      · rename_i heq
        subst heq
        exact List.pairwise_cons.mpr h
      · rename_i hle hne
        refine List.pairwise_cons.mpr ⟨?_, ih h.2⟩
        intro e he
        rcases mem_insert (d := ⟨rest⟩) he with rfl | hold
        · exact Std.lt_of_le_of_ne hle (Ne.symm hne)
        · exact h.1 e hold

theorem updates_insert (d : Dict α) (key : String) (value : α) :
    d.Updates (d.insert key value) key (some value) :=
  ⟨find?_insert_self d key value, fun _ => find?_insert_of_ne d value, fun h => h.insert key value⟩

theorem updates_erase (d : Dict α) (key : String) : d.Updates (d.erase key) key none :=
  ⟨find?_erase_self d key, fun _ => find?_erase_of_ne d, fun h => h.filter _⟩

end Dict

/-! ### Cells -/

namespace Heap

/-- What the cell of a structural value holds. -/
inductive Contents
  | items (items : List Value)
  | entries (entries : Dict Value)
  | groups (entries : Dict (List Value))

/-- Nothing, in the same shape. -/
def Contents.emptied : Contents → Contents
  | items _ => items []
  | entries _ => entries .empty
  | groups _ => groups .empty

/-- What is in the cell of a value; plain values have no cell. -/
def contents (h : Heap) : Value → Option Contents
  | .collection c => some (.items (h.lists.get c))
  | .dictionary c => some (.entries (h.dicts.get c))
  | .groups c => some (.groups (h.groups.get c))
  | _ => none

/-- The cell of the target holds something else, and nothing else is different. -/
structure Writes (h h' : Heap) (target : Value) (after : Contents) : Prop where
  holds : h'.contents target = some after
  others : ∀ v, v ≠ target → h'.contents v = h.contents v
  live : ∀ v, h'.Live v ↔ h.Live v

variable {h : Heap} {c : Nat}

theorem writes_setList (hc : h.Live (.collection c)) (items : List Value) :
    h.Writes (h.setList c items) (.collection c) (.items items) := by
  refine ⟨congrArg (some ∘ Contents.items) (Pool.get_set_self hc items), ?_, ?_⟩
  · intro v hv
    cases v with
    | collection i =>
      exact congrArg (some ∘ Contents.items)
        (Pool.get_set_of_ne _ (fun hi => hv (congrArg Value.collection hi)) items)
    | _ => rfl
  · intro v
    cases v with
    | collection i => simp only [Live, setList, Pool.size_set]
    | _ => exact Iff.rfl

theorem writes_setDict (hc : h.Live (.dictionary c)) (entries : Dict Value) :
    h.Writes (h.setDict c entries) (.dictionary c) (.entries entries) := by
  refine ⟨congrArg (some ∘ Contents.entries) (Pool.get_set_self hc entries), ?_, ?_⟩
  · intro v hv
    cases v with
    | dictionary i =>
      exact congrArg (some ∘ Contents.entries)
        (Pool.get_set_of_ne _ (fun hi => hv (congrArg Value.dictionary hi)) entries)
    | _ => rfl
  · intro v
    cases v with
    | dictionary i => simp only [Live, setDict, Pool.size_set]
    | _ => exact Iff.rfl

theorem writes_setGroups (hc : h.Live (.groups c)) (entries : Dict (List Value)) :
    h.Writes (h.setGroups c entries) (.groups c) (.groups entries) := by
  refine ⟨congrArg (some ∘ Contents.groups) (Pool.get_set_self hc entries), ?_, ?_⟩
  · intro v hv
    cases v with
    | groups i =>
      exact congrArg (some ∘ Contents.groups)
        (Pool.get_set_of_ne _ (fun hi => hv (congrArg Value.groups hi)) entries)
    | _ => rfl
  · intro v
    cases v with
    | groups i => simp only [Live, setGroups, Pool.size_set]
    | _ => exact Iff.rfl

/-- A new cell with the given contents, and nothing else is different. -/
structure Creates (h h' : Heap) (fresh : Value) (contents : Contents) : Prop where
  dead : ¬ h.Live fresh
  holds : h'.contents fresh = some contents
  others : ∀ v, v ≠ fresh → h'.contents v = h.contents v
  live : ∀ v, h'.Live v ↔ h.Live v ∨ v = fresh

theorem creates_newList (h : Heap) (items : List Value) :
    h.Creates (h.newList items).2 (h.newList items).1 (.items items) := by
  refine ⟨Nat.lt_irrefl _, congrArg (some ∘ Contents.items) (Pool.get_alloc_self _ items), ?_, ?_⟩
  · intro v hv
    cases v with
    | collection i =>
      have hi : i ≠ h.lists.size := fun hi => hv (congrArg Value.collection hi)
      refine congrArg (some ∘ Contents.items) ?_
      simp only [newList, Pool.get, Pool.alloc, Array.getElem?_push, Pool.size] at hi ⊢
      rw [if_neg hi]
    | _ => rfl
  · intro v
    cases v with
    | collection i =>
      have hsize : (h.newList items).2.lists.size = h.lists.size + 1 := Pool.size_alloc _ items
      have hfresh : Value.collection i = (h.newList items).1 ↔ i = h.lists.size :=
        ⟨Value.collection.inj, congrArg Value.collection⟩
      rw [hfresh, Live, Live, hsize]
      exact Nat.lt_succ_iff_lt_or_eq
    | _ => simp [Live, newList]

/-- The first item that equals the value is left out, if there is one. -/
theorem eraseFirst_cases (h : Heap) (v : Value) (items : List Value) :
    ((∀ x ∈ items, h.same x v = false) ∧ h.eraseFirst v items = items) ∨
      ∃ before x after, items = before ++ x :: after ∧ (∀ y ∈ before, h.same y v = false) ∧
        h.same x v = true ∧ h.eraseFirst v items = before ++ after := by
  induction items with
  | nil => exact Or.inl ⟨fun x hx => (by cases hx), rfl⟩
  | cons a rest ih =>
    rw [eraseFirst]
    cases ha : h.same a v with
    | true => exact Or.inr ⟨[], a, rest, rfl, fun y hy => (by cases hy), ha, if_pos rfl⟩
    | false =>
      rw [if_neg Bool.false_ne_true]
      rcases ih with ⟨hnone, heq⟩ | ⟨before, x, after, rfl, hbefore, hx, heq⟩
      · exact Or.inl ⟨List.forall_mem_cons.mpr ⟨ha, hnone⟩, by rw [heq]⟩
      · exact Or.inr ⟨a :: before, x, after, rfl, List.forall_mem_cons.mpr ⟨ha, hbefore⟩, hx,
          by rw [heq]; rfl⟩

end Heap

theorem exists_of_eraseIdx {α : Type} {items : List α} {i : Nat} (h : i < items.length) :
    ∃ before x after, items = before ++ x :: after ∧ before.length = i ∧
      items.eraseIdx i = before ++ after :=
  ⟨items.take i, items[i], items.drop (i + 1), by simp, List.length_take_of_le (Nat.le_of_lt h),
    List.eraseIdx_eq_take_drop_succ items i⟩

open Heap

/-! ### The effect on contents -/

/-- What a change does to the contents of its target, given the values of its operands. The heap is
the one before the change: it tells which values are equal, and what a sequence to be added holds.
There is no rule for the removal at an index. -/
inductive Change.Acts (h : Heap) : Change → List Value → Contents → Contents → Prop
  | add {e : Checked} {v : Value} {items : List Value} :
    Acts h (.add e) [v] (.items items) (.items (items ++ [v]))
  | addKeyed {k e : Checked} {key : String} {v : Value} {d d' : Dict (List Value)} :
    d.Updates d' key (some ((d.find? key).getD [] ++ [v])) →
    Acts h (.addKeyed k e) [.text key, v] (.groups d) (.groups d')
  | addRange {e : Checked} {source : Value} {items more : List Value} :
    h.contents source = some (.items more) →
    Acts h (.addRange e) [source] (.items items) (.items (items ++ more))
  | removeNone {e : Checked} {v : Value} {items : List Value} :
    (∀ x ∈ items, h.same x v = false) →
    Acts h (.remove e) [v] (.items items) (.items items)
  | removeFirst {e : Checked} {v x : Value} {before after : List Value} :
    (∀ y ∈ before, h.same y v = false) → h.same x v = true →
    Acts h (.remove e) [v] (.items (before ++ x :: after)) (.items (before ++ after))
  | setItem {i e : Checked} {n : Float} {v x : Value} {before after : List Value} :
    Number.natural? n = some before.length →
    Acts h (.set i e) [.number n, v] (.items (before ++ x :: after)) (.items (before ++ v :: after))
  | setEntry {k e : Checked} {key : String} {v : Value} {d d' : Dict Value} :
    d.Updates d' key (some v) →
    Acts h (.set k e) [.text key, v] (.entries d) (.entries d')
  | removeEntry {k : Checked} {key : String} {d d' : Dict Value} :
    d.Updates d' key none →
    Acts h (.removeKey k) [.text key] (.entries d) (.entries d')
  | removeGroup {k : Checked} {key : String} {d d' : Dict (List Value)} :
    d.Updates d' key none →
    Acts h (.removeKey k) [.text key] (.groups d) (.groups d')
  | clear {values : List Value} {contents : Contents} :
    Acts h .clear values contents contents.emptied

/-! ### The effect on the state -/

/-- The innermost frame that has the variable, wherever it is in the stack, has it with the new value
in place of the old one. All other variables and frames are the same. -/
structure Space.Rebinds (s s' : Space) (name : String) (old new : Value) : Prop where
  frame : ∃ inner f f' outer type,
    s.frames = inner ++ f :: outer ∧ s'.frames = inner ++ f' :: outer ∧
      (∀ g ∈ inner, g.find? (Text.lower name) = none) ∧
      f.find? (Text.lower name) = some ⟨type, old⟩ ∧
      f.Updates f' (Text.lower name) (some ⟨type, new⟩)

theorem Space.setIn_eq_some {key : String} {v : Value} {frames frames' : List Frame}
    (h : setIn key v frames = some frames') :
    ∃ inner f outer var, frames = inner ++ f :: outer ∧ (∀ g ∈ inner, g.find? key = none) ∧
      f.find? key = some var ∧ frames' = inner ++ f.insert key { var with value := v } :: outer := by
  induction frames generalizing frames' with
  | nil => cases h
  | cons f fs ih =>
    rw [setIn] at h
    split at h
    · rename_i var hvar
      cases h
      exact ⟨[], f, fs, var, rfl, fun g hg => (by cases hg), hvar, rfl⟩
    · rename_i hnone
      obtain ⟨rest, hrest, rfl⟩ := Option.map_eq_some_iff.mp h
      obtain ⟨inner, g, outer, var, rfl, hinner, hvar, rfl⟩ := ih hrest
      exact ⟨f :: inner, g, outer, var, rfl, List.forall_mem_cons.mpr ⟨hnone, hinner⟩, hvar, rfl⟩

theorem Space.rebinds_of_set? {s s' : Space} {name : String} {old new : Value}
    (hold : s.value? name = some old) (h : s.set? name new = some s') :
    s.Rebinds s' name old new := by
  obtain ⟨inner, f, outer, ⟨type, value⟩, hs, hinner, hvar, hs'⟩ := setIn_eq_some (set?_eq_some h)
  have hfound : findIn (Text.lower name) s.frames = some ⟨type, value⟩ := by
    rw [hs, findIn, List.findSome?_append, List.findSome?_eq_none_iff.mpr hinner,
      List.findSome?_cons, hvar]
    rfl
  have hvalue : value = old := by
    rw [value?, get?, hfound] at hold
    exact Option.some.inj hold
  subst hvalue
  exact ⟨inner, f, _, outer, type, hs, hs', hinner, hvar, Dict.updates_insert f _ _⟩

namespace Machine

/-- The change acts on the cell of the target, and nothing else is different. Whatever leads to that
cell leads to the new contents, in the variables of now or in any others. -/
structure ChangesInPlace (m m' : Machine) (c : Change) (values : List Value) (target : Value) :
    Prop where
  cell : ∃ before after, m.world.heap.contents target = some before ∧
    m.world.heap.Writes m'.world.heap target after ∧ c.Acts m.world.heap values before after ∧
    ∀ (vars : Space) (other : String), vars.value? other = some target →
      (vars.value? other).bind m'.world.heap.contents = some after
  rest : m' = m.withHeap m'.world.heap

/-- An item is removed at an index. The cell of the target stays as it is; the variable is bound to
a new cell, which holds the other items in their order. -/
structure RemovesAt (m m' : Machine) (name : String) (c : Change) (values : List Value)
    (target : Value) : Prop where
  cell : ∃ index n before x after fresh, c = .removeAt index ∧ values = [.number n] ∧
    Number.natural? n = some before.length ∧
    m.world.heap.contents target = some (.items (before ++ x :: after)) ∧
    m.world.heap.Creates m'.world.heap fresh (.items (before ++ after)) ∧
    m.vars.Rebinds m'.vars name target fresh
  rest : m' = { m.withHeap m'.world.heap with vars := m'.vars }

variable {m m' : Machine} {line : Nat} {name : String}

theorem changesInPlace_of_writes {c : Change} {values : List Value} {target : Value}
    {before after : Contents} {h : Heap} (hbefore : m.world.heap.contents target = some before)
    (hwrites : m.world.heap.Writes h target after) (hacts : c.Acts m.world.heap values before after) :
    m.ChangesInPlace (m.withHeap h) c values target := by
  refine ⟨⟨before, after, hbefore, hwrites, hacts, ?_⟩, rfl⟩
  intro vars other hother
  rw [hother]
  exact hwrites.holds

theorem keyText_eq_ok {key : Value} {k : String} (h : m.keyText key = .ok k) : key = .text k := by
  unfold keyText at h
  cases key with
  | text s =>
    cases h
    rfl
  | _ => cases h

/-- The numbers that are places to write to. -/
theorem place_number_eq_ok_iff {n : Float} {size i : Nat} :
    m.place (.number n) size = .ok i ↔ Number.placeIn? n size = some i := by
  change (if Number.isInside n size = true then Except.ok (Number.whole n)
    else .error (RunFault.outOfRange n size)) = .ok i ↔ _
  split_ifs with hinside
  · rw [Except.ok.injEq, Number.isInside_iff.1 hinside, Option.some_inj]
  · rw [Number.isInside_iff] at hinside
    exact iff_of_false (by simp) fun hplace => hinside (Number.placeIn?_eq_some_whole hplace)

theorem place_eq_ok {index : Value} {size i : Nat} (h : m.place index size = .ok i) :
    ∃ n, index = .number n ∧ Number.natural? n = some i ∧ i < size := by
  cases index with
  | number n =>
    have hplace := place_number_eq_ok_iff.1 h
    exact ⟨n, rfl, (Number.placeIn?_eq_some_iff.1 hplace).1, Number.lt_of_placeIn? hplace⟩
  | _ => cases h

/-- A change writes the cell of its target, or removes an item at an index. -/
theorem applyChange_effect {c : Change} {target : Value} {values : List Value}
    (hlive : m.world.heap.Live target) (htarget : m.vars.value? name = some target)
    (h : m.applyChange line name c target values = (.normal, m')) :
    m.ChangesInPlace m' c values target ∨ m.RemovesAt m' name c values target := by
  unfold applyChange at h
  split at h
  · -- add
    cases h
    exact Or.inl (changesInPlace_of_writes rfl (writes_setList hlive _) .add)
  · -- addKeyed
    obtain ⟨key, hkey, hend⟩ := require_eq_normal_iff.1 h
    cases keyText_eq_ok hkey
    cases hend
    exact Or.inl (changesInPlace_of_writes rfl (writes_setGroups hlive _)
      (.addKeyed (Dict.updates_insert _ _ _)))
  · -- addRange
    cases h
    exact Or.inl (changesInPlace_of_writes rfl (writes_setList hlive _) (.addRange rfl))
  · cases h
  · -- remove
    rename_i cell v
    cases h
    refine Or.inl (changesInPlace_of_writes rfl (writes_setList hlive _) ?_)
    rcases m.world.heap.eraseFirst_cases v (m.world.heap.lists.get cell) with
      ⟨hnone, heq⟩ | ⟨before, x, after, hitems, hbefore, hx, heq⟩
    · rw [heq]
      exact .removeNone hnone
    · rw [heq, hitems]
      exact .removeFirst hbefore hx
  · -- removeAt
    rename_i index cell i
    obtain ⟨place, hplace, hend⟩ := require_eq_normal_iff.1 h
    obtain ⟨n, rfl, hn, hlt⟩ := place_eq_ok hplace
    obtain ⟨vars, hset, rfl⟩ := store_eq_normal_iff.1 hend
    obtain ⟨before, x, after, hitems, rfl, herase⟩ := exists_of_eraseIdx hlt
    rw [herase] at hset ⊢
    exact Or.inr ⟨⟨index, n, before, x, after, _, rfl, rfl, hn,
      congrArg (some ∘ Contents.items) hitems, creates_newList _ _,
      Space.rebinds_of_set? htarget hset⟩, rfl⟩
  · cases h
    exact Or.inl (changesInPlace_of_writes rfl (writes_setList hlive _) .clear)
  · cases h
    exact Or.inl (changesInPlace_of_writes rfl (writes_setDict hlive _) .clear)
  · cases h
    exact Or.inl (changesInPlace_of_writes rfl (writes_setGroups hlive _) .clear)
  · -- set in a dictionary
    obtain ⟨key, hkey, hend⟩ := require_eq_normal_iff.1 h
    cases keyText_eq_ok hkey
    cases hend
    exact Or.inl (changesInPlace_of_writes rfl (writes_setDict hlive _)
      (.setEntry (Dict.updates_insert _ _ _)))
  · -- set in a collection
    rename_i cell i v
    obtain ⟨place, hplace, hend⟩ := require_eq_normal_iff.1 h
    obtain ⟨n, rfl, hn, hlt⟩ := place_eq_ok hplace
    cases hend
    obtain ⟨before, after, hitems, rfl, hset⟩ : ∃ before after, _ ∧ _ ∧
        (m.world.heap.lists.get cell).set place v = before ++ v :: after := List.exists_of_set hlt
    refine Or.inl (changesInPlace_of_writes rfl (writes_setList hlive _) ?_)
    rw [hset, hitems]
    exact .setItem hn
  · -- removeKey
    obtain ⟨key, hkey, hend⟩ := require_eq_normal_iff.1 h
    cases keyText_eq_ok hkey
    cases hend
    exact Or.inl (changesInPlace_of_writes rfl (writes_setDict hlive _)
      (.removeEntry (Dict.updates_erase _ _)))
  · obtain ⟨key, hkey, hend⟩ := require_eq_normal_iff.1 h
    cases keyText_eq_ok hkey
    cases hend
    exact Or.inl (changesInPlace_of_writes rfl (writes_setGroups hlive _)
      (.removeGroup (Dict.updates_erase _ _)))
  · cases h

/-- A change that comes to its normal end has evaluated its operands, and then changed the target. -/
theorem change_eq_normal {c : Change} (h : m.change line name c = (.normal, m')) :
    ∃ values m₁ target, m.values c.expressions = (.ok values, m₁) ∧
      m₁.vars.value? name = some target ∧
      m₁.applyChange line name c target values = (.normal, m') := by
  unfold change at h
  split at h
  · cases h
  · rename_i values m₁ hvalues
    unfold withVariable at h
    split at h
    · rename_i target htarget
      exact ⟨values, m₁, target, hvalues, htarget, h⟩
    · cases h

end Machine

/-- The function never makes a cell cease to exist. -/
def Function.KeepsCells (f : Function) : Prop :=
  ∀ args (w : World), w.heap.Grows (f.run args w).2.heap

namespace Statement

variable {line limit : Nat} {name : String} {c : Change} {m m' : Machine}

/-- **Changes in place, and new bindings.** A statement that changes a structural variable is run
to its normal end, in any state in which the variable leads to a cell that exists. Then its operands
were evaluated first, which left all variables and the queue alone, and all cells too if only
functions of the standard library were called. After that, either the cell that the variable leads
to was changed in the way of the statement and nothing else was, so that the change is seen
wherever the cell is seen; or an item was removed at an index, no cell that was there has changed,
and the variable alone is bound to a new cell with the other items, in the frame that declares it. -/
theorem change_effect (hcalls : ∀ e ∈ c.expressions, e.CallsOnly Function.KeepsCells)
    (hlive : ∀ target, m.vars.value? name = some target → m.world.heap.Live target)
    (hrun : (change line name c).run limit m = some (.normal, m')) :
    ∃ values m₁ target, m.values c.expressions = (.ok values, m₁) ∧
      m₁ = { m with world := m₁.world } ∧
      ((∀ e ∈ c.expressions, e.Standard) → m.Unchanged m₁) ∧
      m.vars.value? name = some target ∧
      (m₁.ChangesInPlace m' c values target ∨ m₁.RemovesAt m' name c values target) := by
  obtain ⟨values, m₁, target, hvalues, htarget, happly⟩ :=
    Machine.change_eq_normal (Option.some.inj hrun)
  obtain ⟨hrest, hgrows⟩ := Machine.passes_of_values (P := Function.KeepsCells)
    World.grows_passage (fun _ hf => hf) hcalls hvalues
  have hvars : m₁.vars = m.vars := by rw [hrest]
  have hmtarget : m.vars.value? name = some target := hvars ▸ htarget
  have hcell : m₁.world.heap.Live target := hgrows target (hlive target hmtarget)
  exact ⟨values, m₁, target, hvalues, hrest,
    fun hstandard => Machine.unchanged_of_values hstandard hvalues, hmtarget,
    Machine.applyChange_effect hcell htarget happly⟩

/-- Two variables in two frames that lead to one cell. -/
def shared : Machine :=
  ⟨⟨⟨⟨#[[.text "a", .text "b"]]⟩, .empty, .empty⟩, []⟩,
    ⟨⟨[("copy", ⟨.text ||| .collection, .collection 0⟩)]⟩,
      [⟨[("list", ⟨.text ||| .collection, .collection 0⟩)]⟩]⟩, none, "prog"⟩

theorem shared_live (target : Value) (h : shared.vars.value? "list" = some target) :
    shared.world.heap.Live target := by
  cases h
  exact Nat.zero_lt_one

/-- The change of `addrange list @copy`. -/
def appendCopy : Change := .addRange (.var "copy" (.text ||| .collection))

/-- The change of `removeat list[1]`. -/
def dropSecond : Change := .removeAt (.literal (.number 1))

/-- The one is seen through both variables, the other through one of them. -/
theorem change_effect_shared :
    (∃ m' values m₁ target, (change 1 "list" appendCopy).run 1 shared = some (.normal, m') ∧
      shared.values appendCopy.expressions = (.ok values, m₁) ∧
      m₁.ChangesInPlace m' appendCopy values target) ∧
    ∃ m' values m₁ target, (change 1 "list" dropSecond).run 1 shared = some (.normal, m') ∧
      shared.values dropSecond.expressions = (.ok values, m₁) ∧
      m₁.RemovesAt m' "list" dropSecond values target := by
  constructor
  · obtain ⟨m', hrun⟩ : ∃ m', (change 1 "list" appendCopy).run 1 shared = some (.normal, m') :=
      ⟨_, rfl⟩
    obtain ⟨values, m₁, target, hvalues, -, -, -, heffect⟩ :=
      change_effect (List.forall_mem_singleton.mpr trivial) shared_live hrun
    rcases heffect with hplace | ⟨⟨index, n, before, x, after, fresh, hc, -⟩, -⟩
    · exact ⟨m', values, m₁, target, hrun, hvalues, hplace⟩
    · cases hc
  · obtain ⟨m', hrun⟩ : ∃ m', (change 1 "list" dropSecond).run 1 shared = some (.normal, m') :=
      ⟨_, rfl⟩
    obtain ⟨values, m₁, target, hvalues, -, -, -, heffect⟩ :=
      change_effect (List.forall_mem_singleton.mpr trivial) shared_live hrun
    rcases heffect with ⟨⟨before, after, -, -, hacts, -⟩, -⟩ | hremoves
    · -- no rule acts on the contents for a removal at an index
      cases hacts
    · exact ⟨m', values, m₁, target, hrun, hvalues, hremoves⟩

end Statement

end WorldScript
