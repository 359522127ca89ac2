import WorldScript.Proofs.Compile.Keyed
import WorldScript.Proofs.Compile.WellPlaced

/-! # The counterparts of compound assignments to a collection

A compound assignment to a collection has counterparts: `+=` adds an item or a range, `-=` removes an
item. The lines of both sorts are recognised in different ways and checked by different rules. Still
a compound assignment is accepted for exactly the values for which one of its counterparts is, and
the expression in it is the same.

* `Counterpart.compileNext_line_iff`: when the line of a counterpart is accepted.
* `Counterpart.compileNext_compound_iff`: when a compound assignment is accepted. -/

namespace WorldScript

/-- The statements that compound assignments to a collection stand for. -/
inductive Counterpart
  /-- `additem name value` -/
  | addItem
  /-- `addrange name value` -/
  | addRange
  /-- `removeitem name value` -/
  | removeItem

namespace Counterpart

/-- The operator of the compound assignment. -/
def op : Counterpart → CompoundOp
  | addItem => .add
  | addRange => .add
  | removeItem => .sub

/-- The line with the name and the value that are put in it. -/
def line (name value : String) : Counterpart → String
  | addItem => "additem " ++ name ++ " " ++ value
  | addRange => "addrange " ++ name ++ " " ++ value
  | removeItem => "removeitem " ++ name ++ " " ++ value

/-- The change that the line becomes. -/
def change (e : Checked) : Counterpart → Change
  | addItem => .add e
  | addRange => .addRange e
  | removeItem => .remove e

/-- The type that the value must fit, for a variable of the given type. -/
def operand (type : Ty) : Counterpart → Ty
  | addItem => type.base
  | addRange => type
  | removeItem => type.base

/-- The form of the line. -/
def form (name value : List Char) : Counterpart → LineForm
  | addItem => .addItem name none value
  | addRange => .addRange name value
  | removeItem => .removeItem name value

/-- The statement of the line. -/
def leaf (ctx : Context) (scope : Scope) (n : Nat) (name value : List Char) :
    Counterpart → Compile Statement
  | addItem => Leaf.addItem ctx scope n name none value
  | addRange => Leaf.addRange ctx scope n name value
  | removeItem => Leaf.removeItem ctx scope n name value

end Counterpart

/-! ### Statements of one line -/

theorem Context.typed_eq_ok_iff {ctx : Context} {scope : Scope} {n : Nat} {role : Role}
    {expected : Ty} {text : List Char} {e : Checked} :
    ctx.typed scope n role expected text = .ok e ↔
      ctx.expression scope n text = .ok e ∧ expected.accepts e.type = true := by
  unfold typed
  cases ctx.expression scope n text with
  | error err => exact ⟨fun h => (by cases h), fun h => by cases h.1⟩
  | ok e' =>
    constructor
    · intro h
      change (if expected.accepts e'.type = true then pure e' else failAt n _) = .ok e at h
      split at h
      · rename_i haccepts
        cases h
        exact ⟨rfl, haccepts⟩
      · exact absurd h failAt_ne_ok
    · rintro ⟨⟨⟩, haccepts⟩
      exact if_pos haccepts

/-- A line that is read as a statement without a block. -/
theorem compileNext_single_iff {budget : Nat} {ctx : Context} {scope : Scope} {n : Nat}
    {text : String} {rest : List Line} {form : LineForm} {s : Compile Statement} {step : Step}
    (hread : LineForm.read? text.toList = some form)
    (hform : ∀ inner, compileForm ctx inner scope ⟨n, text⟩ rest form =
      Step.single scope ⟨n, text⟩ rest s) :
    compileNext budget ctx scope (⟨n, text⟩ :: rest) = .ok step ↔
      ∃ statement, s = .ok statement ∧ step = ⟨statement, rest, scope, n⟩ := by
  have hnext : compileNext budget ctx scope (⟨n, text⟩ :: rest) =
      Step.single scope ⟨n, text⟩ rest s := by
    cases budget with
    | zero => simp only [compileNext, compileLine, hread, hform]
    | succ budget => simp only [compileNext, compileLine, hread, hform]
  rw [hnext]
  simp only [Step.single, bind_eq_ok_iff, pure_eq_ok_iff]
  exact exists_congr fun _ => and_congr_right fun _ => eq_comm

namespace Counterpart

open Text LineForm

variable {budget : Nat} {ctx : Context} {scope : Scope} {n : Nat} {rest : List Line}
  {name value : String} {type : Ty} {step : Step}

section Leaf

variable (htype : scope.lookup name = some type) (hshape : type.shape = 1)

include htype hshape

theorem leaf_eq_ok_iff (c : Counterpart) {s : Statement} :
    c.leaf ctx scope n name.toList value.toList = .ok s ↔
      ∃ e, ctx.expression scope n value.toList = .ok e ∧ (c.operand type).accepts e.type = true ∧
        s = .change n (lower name) (c.change e) := by
  have hcollection := Ty.structural_eq_collection_iff.mpr hshape
  have htarget := Keyed.target_of_lookup htype hcollection n (List.mem_singleton_self _) "a collection"
  have hstrip := Keyed.stripAt_structural n hcollection
  cases c
  all_goals
    simp only [leaf, Leaf.addItem, Leaf.addRange, Leaf.removeItem, String.ofList_toList, htarget,
      bind_eq_ok_iff, pure_eq_ok_iff, Context.typed_eq_ok_iff, operand, change, Except.ok.injEq,
      exists_eq_left', hstrip, and_assoc, @eq_comm _ _ s, Ty.accepts_unmarked_left]

omit htype in
/-- A compound assignment to a collection takes an operand that one of its counterparts takes. -/
theorem compoundTakes?_iff (op : CompoundOp) (t : Ty) :
    Leaf.compoundTakes? op type (some (type ^^^ .collection)) t = some true ↔
      ∃ c : Counterpart, c.op = op ∧ (c.operand type).accepts t = true := by
  have helement : (type ^^^ .collection).accepts t = type.base.accepts t := by
    simp [Ty.accepts, Ty.hasVoid, Ty.base, Ty.collection, hshape]
  cases op with
  | add =>
    simp only [Leaf.compoundTakes?, helement, Option.some.injEq, Bool.or_eq_true]
    constructor
    · rintro (hitem | hrange)
      · exact ⟨addItem, rfl, hitem⟩
      · exact ⟨addRange, rfl, hrange⟩
    · rintro ⟨c, hc, haccepts⟩
      cases c with
      | addItem => exact Or.inl haccepts
      | addRange => exact Or.inr haccepts
      | removeItem => cases hc
  | sub =>
    simp only [Leaf.compoundTakes?, helement, Option.some.injEq]
    constructor
    · exact fun hitem => ⟨removeItem, rfl, hitem⟩
    · rintro ⟨c, hc, haccepts⟩
      cases c with
      | removeItem => exact haccepts
      | _ => cases hc
  | _ =>
    refine ⟨fun h => (by cases h), ?_⟩
    rintro ⟨c, hc, -⟩
    cases c <;> cases hc

theorem compound_eq_ok_iff (op : CompoundOp) {s : Statement} :
    Leaf.compound ctx scope n name.toList op (' ' :: value.toList) = .ok s ↔
      ∃ e, ctx.expression scope n value.toList = .ok e ∧
        (∃ c : Counterpart, c.op = op ∧ (c.operand type).accepts e.type = true) ∧
        s = .compound n (lower name) op e := by
  have hcontains : type.contains .collection = true := by
    rw [Ty.contains_collection_iff, hshape]
    rfl
  have helement : some <$> stripAt n type .collection = .ok (some (type ^^^ .collection)) := by
    simp only [stripAt, Ty.strip, hcontains, if_true]
    rfl
  have hblank : ctx.expression scope n (' ' :: value.toList) =
      ctx.expression scope n value.toList := by
    have htrim : trim (' ' :: value.toList) = trim value.toList := rfl
    simp only [Context.expression, htrim]
  simp only [Leaf.compound, String.ofList_toList, lookupAt, htype, hcontains, if_true, helement,
    hblank, bind_eq_ok_iff, Except.ok.injEq, exists_eq_left', ← compoundTakes?_iff hshape op]
  refine exists_congr fun e => and_congr_right fun _ => ?_
  cases Leaf.compoundTakes? op type (some (type ^^^ .collection)) e.type with
  | none => exact ⟨fun h => absurd h failAt_ne_ok, fun h => by cases h.1⟩
  | some takes =>
    cases takes with
    | false => exact ⟨fun h => absurd h failAt_ne_ok, fun h => by cases h.1⟩
    | true => exact ⟨fun h => ⟨rfl, (Except.ok.inj h).symm⟩, fun h => congrArg Except.ok h.2.symm⟩

end Leaf

section Lines

variable (hname : Name.isValid name = true) (hne : value.toList ≠ [])
  (htrim : trim value.toList = value.toList)

include hname hne htrim

/-- A value that begins with a bracket may be taken for a key. -/
theorem addItem?_cases :
    addItem? ("additem ".toList ++ (name.toList ++ ' ' :: value.toList)) =
      some (.addItem name.toList none value.toList) ∨
    (value.toList.head? = some '[' ∧ ∃ key item,
      addItem? ("additem ".toList ++ (name.toList ++ ' ' :: value.toList)) =
        some (.addItem name.toList (some key) item)) := by
  by_cases hbracket : value.toList.head? = some '['
  · have hkey : afterKeyword? "additem" ("additem ".toList ++ (name.toList ++ ' ' :: value.toList)) =
        some (trimLeft (name.toList ++ ' ' :: value.toList)) := rfl
    rw [trimLeft_name hname] at hkey
    simp only [addItem?, hkey, Option.bind_eq_bind, Option.bind_some,
      target?_name hname (show isNameChar ' ' = false by decide)]
    cases hafter : afterKey? operand? (' ' :: value.toList) with
    | none =>
      left
      simp only [operand?_value hne (trimLeft_of_trim htrim), Option.map_some]
    | some cut => exact Or.inr ⟨hbracket, cut.1, cut.2, rfl⟩
  · exact Or.inl (addItem?_written hname hne (trimLeft_of_trim htrim) hbracket)

omit hname hne in
theorem ne_bracket_of_expression {e : Checked} (h : ctx.expression scope n value.toList = .ok e) :
    value.toList.head? ≠ some '[' := by
  unfold Context.expression at h
  rw [htrim, String.ofList_toList] at h
  split at h
  · rename_i hof
    obtain ⟨c, r, hstart, hc⟩ := Checked.ofText_starts hof htrim
    simpa [hstart] using hc
  · exact absurd h failAt_ne_ok

variable (htype : scope.lookup name = some type) (hshape : type.shape = 1)

include htype hshape

omit hname hne htrim in
theorem compileNext_line_iff_of_read (c : Counterpart)
    (hread : read? (c.line name value).toList = some (c.form name.toList value.toList)) :
    compileNext budget ctx scope (⟨n, c.line name value⟩ :: rest) = .ok step ↔
      ∃ e, ctx.expression scope n value.toList = .ok e ∧ (c.operand type).accepts e.type = true ∧
        step = ⟨.change n (lower name) (c.change e), rest, scope, n⟩ := by
  have hform : ∀ inner, compileForm ctx inner scope ⟨n, c.line name value⟩ rest
      (c.form name.toList value.toList) = Step.single scope ⟨n, c.line name value⟩ rest
        (c.leaf ctx scope n name.toList value.toList) := fun inner => by cases c <;> rfl
  rw [compileNext_single_iff hread hform]
  simp only [c.leaf_eq_ok_iff htype hshape]
  constructor
  · rintro ⟨s, ⟨e, he, haccepts, rfl⟩, hstep⟩
    exact ⟨e, he, haccepts, hstep⟩
  · rintro ⟨e, he, haccepts, hstep⟩
    exact ⟨_, ⟨e, he, haccepts, rfl⟩, hstep⟩

/-- When the line of a counterpart is accepted, and what it becomes. -/
theorem compileNext_line_iff (c : Counterpart) :
    compileNext budget ctx scope (⟨n, c.line name value⟩ :: rest) = .ok step ↔
      ∃ e, ctx.expression scope n value.toList = .ok e ∧ (c.operand type).accepts e.type = true ∧
        step = ⟨.change n (lower name) (c.change e), rest, scope, n⟩ := by
  have hleft := trimLeft_of_trim htrim
  have htext : ∀ word : String, (word ++ name ++ " " ++ value).toList =
      word.toList ++ (name.toList ++ ' ' :: value.toList) := by
    intro word
    simp only [String.toList_append, List.append_assoc]
    rfl
  cases c with
  | addRange =>
    refine compileNext_line_iff_of_read htype hshape addRange ?_
    rw [line, htext]
    exact (FirstBy.of_take 11 rfl rfl (keywordTarget?_written hname hne hleft _ rfl)).read?
  | removeItem =>
    refine compileNext_line_iff_of_read htype hshape removeItem ?_
    rw [line, htext]
    exact (FirstBy.of_take 12 rfl rfl (keywordTarget?_written hname hne hleft _ rfl)).read?
  | addItem =>
    rcases addItem?_cases hname hne htrim with hadd | ⟨hbracket, key, item, hadd⟩
    · refine compileNext_line_iff_of_read htype hshape addItem ?_
      rw [line, htext]
      exact (FirstBy.of_take 10 rfl rfl hadd).read?
    · -- neither a collection with a key nor an expression that begins with a bracket is accepted
      have hread : read? (addItem.line name value).toList =
          some (.addItem name.toList (some key) item) := by
        rw [line, htext]
        exact (FirstBy.of_take 10 rfl rfl hadd).read?
      have hkeyed : ∀ s, Leaf.addItem ctx scope n name.toList (some key) item ≠ .ok s := by
        intro s hs
        simp only [Leaf.addItem, String.ofList_toList, bind_eq_ok_iff] at hs
        obtain ⟨t, htarget, -⟩ := hs
        obtain ⟨declared, hlookup, -, hgroups⟩ := target_eq_ok htarget
        rw [lookup_lower, htype] at hlookup
        cases hlookup
        rw [Ty.structural_eq_groups_iff.mp (List.mem_singleton.mp hgroups)] at hshape
        exact absurd hshape (by decide)
      rw [compileNext_single_iff hread fun _ => rfl]
      constructor
      · rintro ⟨s, hs, -⟩
        exact absurd hs (hkeyed s)
      · rintro ⟨e, he, -⟩
        exact absurd hbracket (ne_bracket_of_expression htrim he)

omit hne htrim in
/-- When a compound assignment to a collection is accepted, and what it becomes. -/
theorem compileNext_compound_iff (hfree : Name.isReserved name = false) (op : CompoundOp) :
    compileNext budget ctx scope (⟨n, name ++ " " ++ op.symbol ++ " " ++ value⟩ :: rest) = .ok step ↔
      ∃ e, ctx.expression scope n value.toList = .ok e ∧
        (∃ c : Counterpart, c.op = op ∧ (c.operand type).accepts e.type = true) ∧
        step = ⟨.compound n (lower name) op e, rest, scope, n⟩ := by
  have htext : (name ++ " " ++ op.symbol ++ " " ++ value).toList =
      name.toList ++ ' ' :: (op.symbol.toList ++ ' ' :: value.toList) := by
    simp only [String.toList_append, List.append_assoc]
    rfl
  have hrest : target? (trimLeft (' ' :: (op.symbol.toList ++ ' ' :: value.toList))) = none := by
    cases op <;> rfl
  have hfirst : FirstBy compound? (.compound name.toList op (' ' :: value.toList))
      (name ++ " " ++ op.symbol ++ " " ++ value).toList := by
    rw [htext]
    exact ⟨recognisers.take 18, _, rfl, none_of_name hname hfree (by decide) _ hrest,
      compound?_written hname op⟩
  rw [compileNext_single_iff hfirst.read? fun _ => rfl]
  simp only [compound_eq_ok_iff htype hshape op]
  constructor
  · rintro ⟨s, ⟨e, he, htakes, rfl⟩, hstep⟩
    exact ⟨e, he, htakes, hstep⟩
  · rintro ⟨e, he, htakes, hstep⟩
    exact ⟨_, ⟨e, he, htakes, rfl⟩, hstep⟩

end Lines

end Counterpart

end WorldScript
