import WorldScript.Proofs.Run.Mutation

/-! # Reads agree with writes

What is found under an index or a key, what `haskey` and `count` answer, and what the statements
that write do, all speak of the same cells: after a write each variable that leads to the cell shows
what was written, and everything else as before. Reading and writing test an index each in its own
way, but they accept the same ones.

* `Machine.lookup`, `Machine.ask`: reading through a variable; `Machine.looksUp` says that these are
  what expressions evaluate to.
* `Machine.lookup_eq_ok_iff`, `Machine.place_eq_ok_iff`: the indices that can be read, and those
  that can be written.
* `Statement.reads_agree_with_writes`: what is read after each of the statements. -/

namespace WorldScript

namespace Machine

/-- The result of a computation, and the state after it. -/
def compute (m : Machine) (x : Eval Value) : Except EvalError Value × Machine :=
  ((x.run.run m.world).1, { m with world := (x.run.run m.world).2 })

/-- What `@a[e]` gives if `e` has the value of the key. -/
def lookup (m : Machine) (a : String) (key : Value) : Except EvalError Value × Machine :=
  match m.vars.value? a with
  | some target => m.compute (target.at key)
  | none => (.error (.undeclared a), m)

/-- What a function answers to the value of the variable and more arguments. -/
def ask (m : Machine) (f : Function) (a : String) (more : List Value) :
    Except EvalError Value × Machine :=
  match m.vars.value? a with
  | some target => m.compute (Eval.call f (target :: more))
  | none => (.error (.undeclared a), m)

/-- Expressions that read through the variable are lookups and questions. -/
structure LooksUp (m : Machine) (a : String) : Prop where
  index : ∀ type result e key m₁, m.eval e = (.ok key, m₁) →
    m.eval (.index (.var a type) e result) = m₁.lookup a key
  keyed : ∀ f type e key m₁, m.eval e = (.ok key, m₁) →
    m.eval (.call f [.var a type, e]) = m₁.ask f a [key]
  plain : ∀ f type, m.eval (.call f [.var a type]) = m.ask f a []

/-- The key leads to a sequence of the items. -/
def ReadsItems (m : Machine) (a : String) (key : Value) (items : List Value) : Prop :=
  ∃ fresh m₁, m.lookup a key = (.ok (.collection fresh), m₁) ∧ m₁.world.heap.lists.get fresh = items

end Machine

/-- Both are the same value or the same error. What is shown of a target that cannot be read so may
differ. -/
inductive ReadsAlike : Except EvalError Value → Except EvalError Value → Prop
  | same (r : Except EvalError Value) : ReadsAlike r r
  | shown {target key target' key' : String} :
    ReadsAlike (.error (.notIndexable target key)) (.error (.notIndexable target' key'))

/-- The place that a value denotes as an index. -/
def Value.place? : Value → Option Nat
  | .number n => Number.natural? n
  | _ => none

theorem Value.eq_number_of_place? {i : Value} {j : Nat} (h : i.place? = some j) :
    ∃ n, i = .number n ∧ Number.natural? n = some j := by
  cases i with
  | number n => exact ⟨n, rfl, h⟩
  | _ => cases h

/-- An index denotes the whole number that its value is. -/
theorem Value.place?_eq_some_iff {i : Value} {j : Nat} :
    i.place? = some j ↔ ∃ n p, i = .number n ∧ Number.parts? n = some p ∧ p.value = j := by
  constructor
  · intro h
    obtain ⟨n, rfl, hn⟩ := eq_number_of_place? h
    obtain ⟨p, hp, hvalue⟩ := Number.natural?_eq_some_iff.1 hn
    exact ⟨n, p, rfl, hp, hvalue⟩
  · rintro ⟨n, p, rfl, hp, hvalue⟩
    exact Number.natural?_eq_some_iff.2 ⟨p, hp, hvalue⟩

/-- The place that a value denotes as an index into a sequence of the given size. -/
def Value.placeIn? (size : Nat) : Value → Option Nat
  | .number n => Number.placeIn? n size
  | _ => none

theorem Value.eq_number_of_placeIn? {i : Value} {size j : Nat} (h : i.placeIn? size = some j) :
    ∃ n, i = .number n ∧ Number.placeIn? n size = some j := by
  cases i with
  | number n => exact ⟨n, rfl, h⟩
  | _ => cases h

theorem Value.place?_of_placeIn? {i : Value} {size j : Nat} (h : i.placeIn? size = some j) :
    i.place? = some j ∧ j < size := by
  obtain ⟨n, rfl, hn⟩ := eq_number_of_placeIn? h
  exact ⟨(Number.placeIn?_eq_some_iff.1 hn).1, Number.lt_of_placeIn? hn⟩

theorem Value.placeIn?_of_place? {i : Value} {size j : Nat} (hsize : size ≤ 2 ^ 53)
    (hi : i.place? = some j) (hlt : j < size) : i.placeIn? size = some j := by
  obtain ⟨n, rfl, hn⟩ := eq_number_of_place? hi
  exact (Number.placeIn?_eq_some_iff_lt hsize).2 ⟨hn, hlt⟩

/-! ### Expressions -/

theorem Eval.run_get_bind {α : Type} (f : World → Eval α) (w : World) :
    (get >>= f).run.run w = (f w).run.run w := rfl

theorem Checked.evalAll_cons {vars : Space} {e : Checked} {es : List Checked} {v : Value}
    {vs : List Value} {w w₁ w₂ : World} (hv : (e.eval vars).run.run w = (.ok v, w₁))
    (hvs : (evalAll vars es).run.run w₁ = (.ok vs, w₂)) :
    (evalAll vars (e :: es)).run.run w = (.ok (v :: vs), w₂) := by
  rw [evalAll, Eval.run_bind_ok hv, Eval.run_bind_ok hvs]
  rfl

namespace Machine

variable {m m₁ m' : Machine} {a name : String} {c : Nat} {target key i v : Value} {k : String}

theorem eval_eq_compute (m : Machine) (e : Checked) : m.eval e = m.compute (e.eval m.vars) := rfl

theorem lookup_eq (h : m.vars.value? a = some target) (key : Value) :
    m.lookup a key = m.compute (target.at key) := by rw [lookup, h]

theorem ask_eq (h : m.vars.value? a = some target) (f : Function) (more : List Value) :
    m.ask f a more = m.compute (Eval.call f (target :: more)) := by rw [ask, h]

theorem compute_congr {x y : Eval Value} (hrest : m₁ = { m with world := m₁.world })
    (h : x.run.run m.world = y.run.run m₁.world) : m.compute x = m₁.compute y := by
  have hworld (w : World) : { m with world := w } = { m₁ with world := w } := by rw [hrest]
  rw [compute, compute, h, hworld]

theorem looksUp (h : m.vars.value? a = some target) : m.LooksUp a := by
  have hvar (type : Ty) := (run_of_eval (eval_var type h)).1
  refine ⟨?_, ?_, ?_⟩
  · intro type result e key m₁ he
    obtain ⟨hrun, hrest⟩ := run_of_eval he
    have hvalue : m₁.vars.value? a = some target := by rw [hrest]; exact h
    rw [lookup_eq hvalue, eval_eq_compute]
    apply compute_congr hrest
    rw [Checked.eval, Eval.run_bind_ok (hvar type), Eval.run_bind_ok hrun]
  · intro f type e key m₁ he
    obtain ⟨hrun, hrest⟩ := run_of_eval he
    have hvalue : m₁.vars.value? a = some target := by rw [hrest]; exact h
    rw [ask_eq hvalue, eval_eq_compute]
    apply compute_congr hrest
    rw [Checked.eval,
      Eval.run_bind_ok (Checked.evalAll_cons (hvar type) (Checked.evalAll_cons hrun rfl))]
  · intro f type
    rw [ask_eq h, eval_eq_compute]
    apply compute_congr rfl
    rw [Checked.eval, Eval.run_bind_ok (Checked.evalAll_cons (hvar type) rfl)]

/-! ### Reading each sort of cell -/

section Collection
variable (h : m.vars.value? a = some (.collection c))
include h

theorem lookup_place {n : Float} {j : Nat}
    (hn : Number.placeIn? n (m.world.heap.lists.get c).length = some j) :
    (m.lookup a (.number n)).1 = .ok ((m.world.heap.lists.get c).getD j .null) := by
  rw [lookup_eq h, compute, Value.at, Eval.run_get_bind]
  dsimp only
  rw [if_neg (Number.not_isOutside_iff.2 (Number.placeIn?_eq_some_whole hn)),
    Number.whole_of_placeIn? hn]
  rfl

theorem lookup_no_place {n : Float}
    (hn : Number.placeIn? n (m.world.heap.lists.get c).length = none) :
    (m.lookup a (.number n)).1 = .error (.outOfRange n (m.world.heap.lists.get c).length) := by
  rw [lookup_eq h, compute, Value.at, Eval.run_get_bind]
  dsimp only
  rw [if_pos (Number.isOutside_iff.2 hn)]
  rfl

theorem lookup_not_number (hkey : ∀ n, key ≠ .number n) :
    ∃ shown shown', (m.lookup a key).1 = .error (.notIndexable shown shown') := by
  rw [lookup_eq h]
  cases key with
  | number n => exact absurd rfl (hkey n)
  | _ => exact ⟨_, _, rfl⟩

/-- The indices that can be read are those that denote a place in the sequence. -/
theorem lookup_eq_ok_iff :
    (∃ w, (m.lookup a i).1 = .ok w) ↔
      ∃ j, i.placeIn? (m.world.heap.lists.get c).length = some j := by
  constructor
  · rintro ⟨w, hw⟩
    by_cases hnumber : ∃ n, i = .number n
    · obtain ⟨n, rfl⟩ := hnumber
      rw [← Option.ne_none_iff_exists']
      intro hnone
      rw [lookup_no_place h hnone] at hw
      cases hw
    · obtain ⟨shown, shown', herr⟩ := lookup_not_number h fun n hn => hnumber ⟨n, hn⟩
      rw [herr] at hw
      cases hw
  · rintro ⟨j, hj⟩
    obtain ⟨n, rfl, hn⟩ := Value.eq_number_of_placeIn? hj
    exact ⟨_, lookup_place h hn⟩

end Collection

section Dictionary
variable (h : m.vars.value? a = some (.dictionary c))
include h

theorem lookup_text (k : String) :
    (m.lookup a (.text k)).1 =
      ((m.world.heap.dicts.get c).find? k).elim (.error (.missingKey k)) .ok := by
  rw [lookup_eq h, compute, Value.at, Eval.run_get_bind]
  dsimp only
  cases (m.world.heap.dicts.get c).find? k with
  | none => rfl
  | some v => rfl

theorem lookup_not_text (hkey : ∀ k, key ≠ .text k) :
    ∃ shown shown', (m.lookup a key).1 = .error (.notIndexable shown shown') := by
  rw [lookup_eq h]
  cases key with
  | text k => exact absurd rfl (hkey k)
  | _ => exact ⟨_, _, rfl⟩

theorem ask_hasEntry (k : String) :
    (m.ask Library.Standard.hasEntry a [.text k]).1 =
      .ok (.boolean ((m.world.heap.dicts.get c).contains k)) := by
  rw [ask_eq h]
  rfl

end Dictionary

section Groups
variable (h : m.vars.value? a = some (.groups c))
include h

theorem readsItems (k : String) :
    m.ReadsItems a (.text k) (((m.world.heap.groups.get c).find? k).getD []) := by
  refine ⟨_, _, lookup_eq h (.text k), ?_⟩
  exact Pool.get_alloc_self _ _

theorem ask_hasGroup (k : String) :
    (m.ask Library.Standard.hasGroup a [.text k]).1 =
      .ok (.boolean ((m.world.heap.groups.get c).contains k)) := by
  rw [ask_eq h]
  rfl

theorem ask_count : (m.ask Library.Standard.countGrouped a []).1 =
    .ok (Library.Standard.ofCount
      ((m.world.heap.groups.get c).entries.foldl (fun n e => n + e.2.length) 0)) := by
  rw [ask_eq h]
  rfl

end Groups

/-! ### Running a change -/

theorem run_change_iff {ch : Change} {values : List Value} {line limit : Nat}
    (hvalues : m.values ch.expressions = (.ok values, m₁))
    (htarget : m₁.vars.value? name = some target) :
    (Statement.change line name ch).run limit m = some (.normal, m') ↔
      m₁.applyChange line name ch target values = (.normal, m') := by
  simp only [Statement.run, change, hvalues, withVariable, htarget, Option.some_inj]

/-- The indices that can be written. -/
theorem place_eq_ok_iff {size j : Nat} : m.place i size = .ok j ↔ i.placeIn? size = some j := by
  cases i with
  | number n => exact place_number_eq_ok_iff
  | _ => exact iff_of_false (by simp [place]) (by simp [Value.placeIn?])

theorem keyText_eq_ok_iff : m.keyText key = .ok k ↔ key = .text k := by
  constructor
  · exact keyText_eq_ok
  · rintro rfl
    rfl

theorem readsAlike_collection (h : m.vars.value? a = some (.collection c))
    (h' : m'.vars.value? a = some (.collection c))
    (hlength : (m'.world.heap.lists.get c).length = (m.world.heap.lists.get c).length)
    (hitems : ∀ j, key.place? = some j →
      (m'.world.heap.lists.get c).getD j .null = (m.world.heap.lists.get c).getD j .null) :
    ReadsAlike (m.lookup a key).1 (m'.lookup a key).1 := by
  by_cases hnumber : ∃ n, key = .number n
  · obtain ⟨n, rfl⟩ := hnumber
    cases hn : Number.placeIn? n (m.world.heap.lists.get c).length with
    | some j =>
      rw [lookup_place h hn, lookup_place h' (hlength ▸ hn),
        hitems j (Number.placeIn?_eq_some_iff.1 hn).1]
      exact .same _
    | none =>
      rw [lookup_no_place h hn, lookup_no_place h' (hlength ▸ hn), hlength]
      exact .same _
  · obtain ⟨shown, shown', herr⟩ := lookup_not_number h fun n hn => hnumber ⟨n, hn⟩
    obtain ⟨shown₂, shown₂', herr₂⟩ := lookup_not_number h' fun n hn => hnumber ⟨n, hn⟩
    rw [herr, herr₂]
    exact .shown

/-! ### Collections -/

theorem applyChange_setItem_iff {line : Nat} {index e : Checked} :
    m.applyChange line name (.set index e) (.collection c) [i, v] = (.normal, m') ↔
      ∃ j, i.placeIn? (m.world.heap.lists.get c).length = some j ∧
        m' = m.withHeap (m.world.heap.setList c ((m.world.heap.lists.get c).set j v)) := by
  change m.require line (m.place i _) _ = _ ↔ _
  simp only [require_eq_normal_iff, done_eq_normal_iff, place_eq_ok_iff, eq_comm (b := m')]

theorem applyChange_removeAt_iff {line : Nat} {index : Checked}
    (htarget : m.vars.value? name = some (.collection c)) :
    (∃ m', m.applyChange line name (.removeAt index) (.collection c) [i] = (.normal, m')) ↔
      ∃ j, i.placeIn? (m.world.heap.lists.get c).length = some j := by
  constructor
  · rintro ⟨m', h⟩
    obtain ⟨j, hj, -⟩ := require_eq_normal_iff.1 h
    exact ⟨j, place_eq_ok_iff.1 hj⟩
  · rintro ⟨j, hj⟩
    obtain ⟨var, hget, -⟩ := Option.map_eq_some_iff.1 htarget
    obtain ⟨vars, hset, -⟩ := Space.set?_of_get? hget
      (m.world.heap.newList ((m.world.heap.lists.get c).eraseIdx j)).1
    exact ⟨_, require_eq_normal_iff.2
      ⟨j, place_eq_ok_iff.2 hj, store_eq_normal_iff.2 ⟨vars, hset, rfl⟩⟩⟩

/-- An index in range shows that the cell exists. -/
theorem live_of_lt {h : Heap} {j : Nat} (hlt : j < (h.lists.get c).length) :
    h.Live (.collection c) := by
  by_contra hdead
  have hnone : h.lists.cells[c]? = none := Array.getElem?_eq_none (not_lt.1 hdead)
  rw [Pool.get, hnone] at hlt
  exact Nat.not_lt_zero j hlt

end Machine

/-! ### Dictionaries -/

namespace Dict

theorem foldl_length_succ {α β : Type} (l : List (α × List β)) (n : Nat) :
    l.foldl (fun n e => n + e.2.length) (n + 1) = l.foldl (fun n e => n + e.2.length) n + 1 := by
  induction l generalizing n with
  | nil => rfl
  | cons e l ih => rw [List.foldl_cons, List.foldl_cons, Nat.add_right_comm, ih]

/-- A key below all keys has no entry. -/
theorem lookup_eq_none_of_lt {α : Type} {entries : List (String × α)} {k : String}
    (h : ∀ entry ∈ entries, k < entry.1) : entries.lookup k = none := by
  rw [List.lookup_eq_none_iff]
  intro entry hentry
  have hne : k ≠ entry.1 := by
    intro heq
    exact String.lt_irrefl k (heq ▸ h entry hentry)
  simpa using hne

/-- An item more in the group of one key is an item more in all groups. -/
theorem foldl_length_append {entries : List (String × List Value)} {k : String} {v : Value}
    (hordered : entries.Pairwise fun x y => x.1 < y.1) (n : Nat) :
    (insertEntry k ((entries.lookup k).getD [] ++ [v]) entries).foldl
        (fun n e => n + e.2.length) n =
      entries.foldl (fun n e => n + e.2.length) n + 1 := by
  induction entries generalizing n with
  | nil => rfl
  | cons first rest ih =>
    obtain ⟨k', items⟩ := first
    rw [List.pairwise_cons] at hordered
    rw [insertEntry]
    split_ifs with hlt heq
    · -- all keys are greater, so the group is new
      have hnone : ((k', items) :: rest).lookup k = none := by
        apply lookup_eq_none_of_lt
        exact List.forall_mem_cons.2
          ⟨hlt, fun entry hentry => String.lt_trans hlt (hordered.1 entry hentry)⟩
      rw [hnone, List.foldl_cons]
      exact foldl_length_succ _ n
    · subst heq
      rw [List.lookup_cons_self, List.foldl_cons, List.foldl_cons, Option.getD_some,
        List.length_append, List.length_singleton, ← Nat.add_assoc]
      exact foldl_length_succ rest _
    · have hlookup : ((k', items) :: rest).lookup k = rest.lookup k := by
        rw [List.lookup_cons, beq_false_of_ne heq]
      rw [hlookup, List.foldl_cons, List.foldl_cons]
      exact ih hordered.2 _

end Dict

/-! ### Statements -/

/-- What setting an item of a collection with so many items has to do with reading it. -/
structure SetsItem (m₁ : Machine) (other : String) (i v : Value) (size : Nat)
    (result : Option Ending) : Prop where
  /-- The item is set for the indices that can be read. -/
  succeeds : (∃ m', result = some (.normal, m')) ↔ ∃ w, (m₁.lookup other i).1 = .ok w
  /-- These are numbers whose value is a whole number from zero on and less than the size, -/
  inRange : (∃ w, (m₁.lookup other i).1 = .ok w) →
    ∃ n p, ∃ j < size, i = .number n ∧ Number.parts? n = some p ∧ p.value = (j : Nat)
  /-- and all such numbers if the size is not rounded when it is compared with them. -/
  valid : size ≤ 2 ^ 53 → ((∃ w, (m₁.lookup other i).1 = .ok w) ↔
    ∃ n p, ∃ j < size, i = .number n ∧ Number.parts? n = some p ∧ p.value = (j : Nat))
  written : ∀ m', result = some (.normal, m') → (m'.lookup other i).1 = .ok v
  others : ∀ m', result = some (.normal, m') → ∀ j : Value, j.place? ≠ i.place? →
    ReadsAlike (m₁.lookup other j).1 (m'.lookup other j).1

/-- A write under a key is made if the key is a text, and shows in the state after it. -/
structure WritesKey (key : Value) (result : Option Ending)
    (Shows : Machine → String → Prop) : Prop where
  succeeds : (∃ m', result = some (.normal, m')) ↔ ∃ k, key = .text k
  written : ∀ m' k, key = .text k → result = some (.normal, m') → Shows m' k

/-- The dictionary has the value for the key, or none, and for the other keys what it had. -/
structure ShowsEntry (m₁ m' : Machine) (other k : String) (value : Option Value) : Prop where
  found : (m'.lookup other (.text k)).1 = value.elim (.error (.missingKey k)) .ok
  hasKey : (m'.ask Library.Standard.hasEntry other [.text k]).1 = .ok (.boolean value.isSome)
  others : ∀ key : Value, key ≠ .text k → ReadsAlike (m₁.lookup other key).1 (m'.lookup other key).1
  othersHaveKey : ∀ k', k' ≠ k → (m'.ask Library.Standard.hasEntry other [.text k']).1 =
    (m₁.ask Library.Standard.hasEntry other [.text k']).1

/-- The group of the key has one more item, and the other groups are as they were. -/
structure AddsToGroup (m₁ m' : Machine) (other k : String) (v : Value) : Prop where
  appended : ∃ items, m₁.ReadsItems other (.text k) items ∧
    m'.ReadsItems other (.text k) (items ++ [v]) ∧
    ((m₁.ask Library.Standard.hasGroup other [.text k]).1 = .ok (.boolean false) → items = [])
  counted : ∃ n, (m₁.ask Library.Standard.countGrouped other []).1 =
      .ok (Library.Standard.ofCount n) ∧
    (m'.ask Library.Standard.countGrouped other []).1 = .ok (Library.Standard.ofCount (n + 1))
  others : ∀ k', k' ≠ k → ∃ items, m₁.ReadsItems other (.text k') items ∧
    m'.ReadsItems other (.text k') items

section Writes

variable {m m₁ m' : Machine} {name other : String} {line limit c : Nat} {i v : Value} {k : String}

theorem setsItem {index e : Checked} (hvalues : m.values [index, e] = (.ok [i, v], m₁))
    (htarget : m₁.vars.value? name = some (.collection c))
    (hother : m₁.vars.value? other = some (.collection c)) :
    SetsItem m₁ other i v (m₁.world.heap.lists.get c).length
      ((Statement.change line name (.set index e)).run limit m) := by
  have hrun (m' : Machine) :
      (Statement.change line name (.set index e)).run limit m = some (.normal, m') ↔
        ∃ j, i.placeIn? (m₁.world.heap.lists.get c).length = some j ∧
          m' = m₁.withHeap (m₁.world.heap.setList c ((m₁.world.heap.lists.get c).set j v)) :=
    (Machine.run_change_iff hvalues htarget).trans Machine.applyChange_setItem_iff
  -- what is left of the new state: the same variables, and one other item in the cell
  have hafter {m' : Machine}
      (h : (Statement.change line name (.set index e)).run limit m = some (.normal, m')) :
      ∃ j, i.placeIn? (m₁.world.heap.lists.get c).length = some j ∧
        m'.vars.value? other = some (.collection c) ∧
        m'.world.heap.lists.get c = (m₁.world.heap.lists.get c).set j v := by
    obtain ⟨j, hj, rfl⟩ := (hrun m').1 h
    have hlive := Machine.live_of_lt (Value.place?_of_placeIn? hj).2
    exact ⟨j, hj, hother, Pool.get_set_self hlive _⟩
  have hrange : (∃ w, (m₁.lookup other i).1 = .ok w) →
      ∃ n p, ∃ j < (m₁.world.heap.lists.get c).length, i = .number n ∧
        Number.parts? n = some p ∧ p.value = (j : Nat) := by
    rw [Machine.lookup_eq_ok_iff hother]
    rintro ⟨j, hj⟩
    obtain ⟨hplace, hlt⟩ := Value.place?_of_placeIn? hj
    obtain ⟨n, p, hi⟩ := Value.place?_eq_some_iff.1 hplace
    exact ⟨n, p, j, hlt, hi⟩
  refine ⟨?_, hrange, fun hsize => ⟨hrange, ?_⟩, ?_, ?_⟩
  · rw [Machine.lookup_eq_ok_iff hother]
    constructor
    · rintro ⟨m', h⟩
      obtain ⟨j, hj, -⟩ := (hrun m').1 h
      exact ⟨j, hj⟩
    · rintro ⟨j, hj⟩
      exact ⟨_, (hrun _).2 ⟨j, hj, rfl⟩⟩
  · rintro ⟨n, p, j, hlt, hi⟩
    have hplace := Value.place?_eq_some_iff.2 ⟨n, p, hi⟩
    exact (Machine.lookup_eq_ok_iff hother).2 ⟨j, Value.placeIn?_of_place? hsize hplace hlt⟩
  · intro m' h
    obtain ⟨j, hj, hother', hcell⟩ := hafter h
    obtain ⟨n, rfl, hn⟩ := Value.eq_number_of_placeIn? hj
    have hlt := Number.lt_of_placeIn? hn
    rw [Machine.lookup_place hother' (by rwa [hcell, List.length_set]), hcell]
    simp [hlt]
  · intro m' h key hkey
    obtain ⟨j, hj, hother', hcell⟩ := hafter h
    apply Machine.readsAlike_collection hother hother'
    · rw [hcell, List.length_set]
    · intro j' hj'
      have hne : j ≠ j' := by
        rintro rfl
        exact hkey (hj'.trans (Value.place?_of_placeIn? hj).1.symm)
      rw [hcell, List.getD_eq_getElem?_getD, List.getElem?_set_ne hne,
        List.getD_eq_getElem?_getD]

theorem removesAt_iff {index : Checked} (hvalues : m.values [index] = (.ok [i], m₁))
    (htarget : m₁.vars.value? name = some (.collection c))
    (hother : m₁.vars.value? other = some (.collection c)) :
    (∃ m', (Statement.change line name (.removeAt index)).run limit m = some (.normal, m')) ↔
      ∃ w, (m₁.lookup other i).1 = .ok w := by
  rw [Machine.lookup_eq_ok_iff hother, ← Machine.applyChange_removeAt_iff htarget]
  exact exists_congr fun m' => Machine.run_change_iff hvalues htarget

theorem writesKey {ch : Change} {values : List Value} {target key : Value}
    {after : String → Machine} {Shows : Machine → String → Prop}
    (hvalues : m.values ch.expressions = (.ok values, m₁))
    (htarget : m₁.vars.value? name = some target)
    (happly : m₁.applyChange line name ch target values =
      m₁.require line (m₁.keyText key) fun k => (after k).done)
    (hshows : ∀ k, Shows (after k) k) :
    WritesKey key ((Statement.change line name ch).run limit m) Shows := by
  have hrun (m' : Machine) : (Statement.change line name ch).run limit m = some (.normal, m') ↔
      ∃ k, key = .text k ∧ m' = after k := by
    rw [Machine.run_change_iff hvalues htarget, happly]
    simp only [Machine.require_eq_normal_iff, Machine.done_eq_normal_iff,
      Machine.keyText_eq_ok_iff, eq_comm (b := m')]
  refine ⟨⟨?_, ?_⟩, ?_⟩
  · rintro ⟨m', h⟩
    obtain ⟨k, hk, -⟩ := (hrun m').1 h
    exact ⟨k, hk⟩
  · rintro ⟨k, hk⟩
    exact ⟨after k, (hrun _).2 ⟨k, hk, rfl⟩⟩
  · rintro m' k rfl h
    obtain ⟨k', hk, rfl⟩ := (hrun m').1 h
    cases hk
    exact hshows k

/-- What an update of a dictionary's cell shows. -/
theorem showsEntry_setDict {d : Dict Value} {value : Option Value}
    (hother : m₁.vars.value? other = some (.dictionary c))
    (hlive : m₁.world.heap.Live (.dictionary c))
    (hm' : m' = m₁.withHeap (m₁.world.heap.setDict c d))
    (hupdates : (m₁.world.heap.dicts.get c).Updates d k value) :
    ShowsEntry m₁ m' other k value := by
  have hother' : m'.vars.value? other = some (.dictionary c) := by rw [hm']; exact hother
  have hcell : m'.world.heap.dicts.get c = d := by rw [hm']; exact Pool.get_set_self hlive d
  rw [← hcell] at hupdates
  refine ⟨?_, ?_, ?_, ?_⟩
  · rw [Machine.lookup_text hother', hupdates.found]
  · rw [Machine.ask_hasEntry hother', Dict.contains, hupdates.found]
  · intro key hkey
    by_cases htext : ∃ k', key = .text k'
    · obtain ⟨k', rfl⟩ := htext
      rw [Machine.lookup_text hother, Machine.lookup_text hother',
        hupdates.others k' fun heq => hkey (congrArg Value.text heq)]
      exact .same _
    · obtain ⟨shown, shown', herr⟩ := Machine.lookup_not_text hother fun k hk => htext ⟨k, hk⟩
      obtain ⟨shown₂, shown₂', herr₂⟩ := Machine.lookup_not_text hother' fun k hk => htext ⟨k, hk⟩
      rw [herr, herr₂]
      exact .shown
  · intro k' hne
    rw [Machine.ask_hasEntry hother, Machine.ask_hasEntry hother', Dict.contains, Dict.contains,
      hupdates.others k' hne]

theorem addsToGroup_setGroups (hother : m₁.vars.value? other = some (.groups c))
    (hlive : m₁.world.heap.Live (.groups c)) (hordered : (m₁.world.heap.groups.get c).Ordered)
    (hm' : m' = m₁.withHeap (m₁.world.heap.setGroups c ((m₁.world.heap.groups.get c).insert k
      (((m₁.world.heap.groups.get c).find? k).getD [] ++ [v])))) :
    AddsToGroup m₁ m' other k v := by
  have hother' : m'.vars.value? other = some (.groups c) := by rw [hm']; exact hother
  have hcell : m'.world.heap.groups.get c = (m₁.world.heap.groups.get c).insert k
      (((m₁.world.heap.groups.get c).find? k).getD [] ++ [v]) := by
    rw [hm']
    exact Pool.get_set_self hlive _
  have hupdates := Dict.updates_insert (m₁.world.heap.groups.get c) k
    (((m₁.world.heap.groups.get c).find? k).getD [] ++ [v])
  rw [← hcell] at hupdates
  refine ⟨⟨_, Machine.readsItems hother k, ?_, ?_⟩, ⟨_, Machine.ask_count hother, ?_⟩, ?_⟩
  · have hreads := Machine.readsItems hother' k
    rwa [hupdates.found] at hreads
  · intro hmissing
    rw [Machine.ask_hasGroup hother, Dict.contains] at hmissing
    have hnone : ((m₁.world.heap.groups.get c).find? k).isSome = false :=
      Value.boolean.inj (Except.ok.inj hmissing)
    rw [Option.isSome_eq_false_iff, Option.isNone_iff_eq_none] at hnone
    rw [hnone, Option.getD_none]
  · rw [Machine.ask_count hother', hcell]
    exact congrArg (fun n => Except.ok (Library.Standard.ofCount n))
      (Dict.foldl_length_append hordered 0)
  · intro k' hne
    refine ⟨_, Machine.readsItems hother k', ?_⟩
    have hreads := Machine.readsItems hother' k'
    rwa [hupdates.others k' hne] at hreads

end Writes

namespace Statement

/-- **Reads agree with writes.** A statement changes a cell through one variable, after its operands
have been evaluated, and the cell is read through any variable that leads to it.

An item of a collection is set, and removed, for exactly the indices that can be read; once it is
set, it is read, and all other indices read as before. An entry of a dictionary is there once it is
set and not there once it is removed, and all others are as before. An item that is added to a group
comes after those that the group had, counts for one, and leaves the other groups as they were. -/
theorem reads_agree_with_writes {line limit : Nat} {m m₁ : Machine} {name other : String}
    (hother : m₁.vars.value? other = m₁.vars.value? name) :
    (∀ m₂ : Machine, m₂.vars.value? other ≠ none → m₂.LooksUp other) ∧
    (∀ index e i v c, m.values [index, e] = (.ok [i, v], m₁) →
      m₁.vars.value? name = some (.collection c) →
      SetsItem m₁ other i v (m₁.world.heap.lists.get c).length
        ((change line name (.set index e)).run limit m)) ∧
    (∀ index i c, m.values [index] = (.ok [i], m₁) →
      m₁.vars.value? name = some (.collection c) →
      ((∃ m', (change line name (.removeAt index)).run limit m = some (.normal, m')) ↔
        ∃ w, (m₁.lookup other i).1 = .ok w)) ∧
    (∀ keyed e key v c, m.values [keyed, e] = (.ok [key, v], m₁) →
      m₁.vars.value? name = some (.dictionary c) → m₁.world.heap.Live (.dictionary c) →
      WritesKey key ((change line name (.set keyed e)).run limit m) fun m' k =>
        ShowsEntry m₁ m' other k (some v)) ∧
    (∀ keyed key c, m.values [keyed] = (.ok [key], m₁) →
      m₁.vars.value? name = some (.dictionary c) → m₁.world.heap.Live (.dictionary c) →
      WritesKey key ((change line name (.removeKey keyed)).run limit m) fun m' k =>
        ShowsEntry m₁ m' other k none) ∧
    ∀ keyed e key v c, m.values [keyed, e] = (.ok [key, v], m₁) →
      m₁.vars.value? name = some (.groups c) → m₁.world.heap.Live (.groups c) →
      (m₁.world.heap.groups.get c).Ordered →
      WritesKey key ((change line name (.addKeyed keyed e)).run limit m) fun m' k =>
        AddsToGroup m₁ m' other k v := by
  refine ⟨?_, ?_, ?_, ?_, ?_, ?_⟩
  · intro m₂ hvisible
    obtain ⟨target, htarget⟩ := Option.ne_none_iff_exists'.1 hvisible
    exact Machine.looksUp htarget
  · intro index e i v c hvalues htarget
    exact setsItem hvalues htarget (hother.trans htarget)
  · intro index i c hvalues htarget
    exact removesAt_iff hvalues htarget (hother.trans htarget)
  · intro keyed e key v c hvalues htarget hlive
    apply writesKey hvalues htarget rfl
    intro k
    exact showsEntry_setDict (hother.trans htarget) hlive rfl (Dict.updates_insert _ k v)
  · intro keyed key c hvalues htarget hlive
    apply writesKey hvalues htarget rfl
    intro k
    exact showsEntry_setDict (hother.trans htarget) hlive rfl (Dict.updates_erase _ k)
  · intro keyed e key v c hvalues htarget hlive hordered
    apply writesKey hvalues htarget rfl
    intro k
    exact addsToGroup_setGroups (hother.trans htarget) hlive hordered rfl

/-- A collection, a dictionary and groups, each under two names. -/
def twoNames : Machine :=
  ⟨⟨⟨⟨#[[.text "a", .text "b", .text "c"]]⟩, ⟨#[⟨[("k", .text "a")]⟩]⟩,
      ⟨#[⟨[("k", [.text "a"])]⟩]⟩⟩, []⟩,
    ⟨⟨[("d", ⟨.text ||| .dictionary, .dictionary 0⟩), ("g", ⟨.text ||| .groups, .groups 0⟩),
      ("l", ⟨.text ||| .collection, .collection 0⟩)]⟩,
      [⟨[("e", ⟨.text ||| .dictionary, .dictionary 0⟩), ("h", ⟨.text ||| .groups, .groups 0⟩),
        ("n", ⟨.text ||| .collection, .collection 0⟩)]⟩]⟩, none, "prog"⟩

/-- What is written under one name is read under the other. -/
theorem reads_agree_with_writes_twoNames :
    (∃ m', (change 1 "l" (.set (.literal (.number 1)) (.literal (.text "z")))).run 1 twoNames =
        some (.normal, m') ∧ (m'.lookup "n" (.number 1)).1 = .ok (.text "z") ∧
      ReadsAlike (twoNames.lookup "n" (.number 2)).1 (m'.lookup "n" (.number 2)).1) ∧
    (∃ m', (change 1 "l" (.removeAt (.literal (.number 1)))).run 1 twoNames =
      some (.normal, m')) ∧
    (∃ m', (change 1 "d" (.set (.literal (.text "n")) (.literal (.text "z")))).run 1 twoNames =
        some (.normal, m') ∧ ShowsEntry twoNames m' "e" "n" (some (.text "z"))) ∧
    (∃ m', (change 1 "d" (.removeKey (.literal (.text "k")))).run 1 twoNames =
        some (.normal, m') ∧ ShowsEntry twoNames m' "e" "k" none) ∧
    ∃ m', (change 1 "g" (.addKeyed (.literal (.text "k")) (.literal (.text "z")))).run 1 twoNames =
        some (.normal, m') ∧ AddsToGroup twoNames m' "h" "k" (.text "z") := by
  -- each equation goes through the value, since the kernel is slow to compare the two searches
  obtain ⟨-, hset, hremove, -⟩ := @reads_agree_with_writes 1 1 twoNames twoNames "l" "n"
    (Eq.trans (b := some (.collection 0)) rfl rfl)
  obtain ⟨-, -, -, hentry, herase, -⟩ := @reads_agree_with_writes 1 1 twoNames twoNames "d" "e"
    (Eq.trans (b := some (.dictionary 0)) rfl rfl)
  obtain ⟨-, -, -, -, -, hadd⟩ := @reads_agree_with_writes 1 1 twoNames twoNames "g" "h"
    (Eq.trans (b := some (.groups 0)) rfl rfl)
  have hsecond : (twoNames.lookup "n" (.number 1)).1 = .ok (.text "b") :=
    Machine.lookup_place (c := 0) (j := 1) rfl (by decide +kernel)
  refine ⟨?_, ?_, ?_, ?_, ?_⟩
  · have hsets := hset (.literal (.number 1)) (.literal (.text "z")) (.number 1) (.text "z") 0
      rfl rfl
    obtain ⟨m', h⟩ := hsets.succeeds.2 ⟨.text "b", hsecond⟩
    exact ⟨m', h, hsets.written m' h, hsets.others m' h (.number 2) (by decide)⟩
  · exact (hremove (.literal (.number 1)) (.number 1) 0 rfl rfl).2 ⟨.text "b", hsecond⟩
  · have hwrites := hentry (.literal (.text "n")) (.literal (.text "z")) (.text "n") (.text "z") 0
      rfl rfl Nat.zero_lt_one
    obtain ⟨m', h⟩ := hwrites.succeeds.2 ⟨"n", rfl⟩
    exact ⟨m', h, hwrites.written m' "n" rfl h⟩
  · have hwrites := herase (.literal (.text "k")) (.text "k") 0 rfl rfl Nat.zero_lt_one
    obtain ⟨m', h⟩ := hwrites.succeeds.2 ⟨"k", rfl⟩
    exact ⟨m', h, hwrites.written m' "k" rfl h⟩
  · have hwrites := hadd (.literal (.text "k")) (.literal (.text "z")) (.text "k") (.text "z") 0
      rfl rfl Nat.zero_lt_one (List.pairwise_singleton _ _)
    obtain ⟨m', h⟩ := hwrites.succeeds.2 ⟨"k", rfl⟩
    exact ⟨m', h, hwrites.written m' "k" rfl h⟩

end Statement

end WorldScript
