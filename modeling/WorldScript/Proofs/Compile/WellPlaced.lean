import WorldScript.Program.Basic
import WorldScript.Proofs.Compile.Place
import WorldScript.Proofs.Ty.Shape

/-! # What the compiler has checked of a statement

`WellPlaced p s` collects, for each sort of statement, the facts about it that hold whenever it was
compiled at the place `p`: its expressions are typed in the scope and have the types they must have,
a name that it declares is new and not reserved, a name that it changes is visible with a suitable
type, and it jumps or returns only where that is allowed. What is inside of its blocks is left out;
that is said of each statement there.

* `compileNext_faithful`: every statement of a compiled tree came out of the compiler at its own
  place, from a tail of the lines.
* `compileNext_wellPlaced`: every statement that it produces is well placed.
* `Definition.compiled`: both hold all through the body of a compiled program. -/

namespace WorldScript

/-- An expression that is typed at the place and can stand where the type is wanted. -/
def Place.Takes (p : Place) (type : Ty) (e : Checked) : Prop :=
  e.Typed p.context.library p.scope ∧ type.accepts e.type = true

/-- A name in lower case that can be declared. -/
structure Place.Free (p : Place) (name : String) : Prop where
  lower : Text.lower name = name
  unreserved : Name.isReserved name = false
  fresh : p.scope.lookup name = none

/-- What is known about a change of a variable of the given type. -/
def Change.WellPlaced (p : Place) (type : Ty) : Change → Prop
  | add item => type.shape = 1 ∧ p.Takes type.base item
  | addKeyed key item => type.shape = 4 ∧ p.Takes .text key ∧ p.Takes type.base item
  | addRange items => type.shape = 1 ∧ p.Takes type items
  | remove item => type.shape = 1 ∧ p.Takes type.base item
  | removeAt index => type.shape = 1 ∧ p.Takes .number index
  | clear => type.shape = 1 ∨ type.shape = 2 ∨ type.shape = 4
  | set key item =>
    (type.shape = 2 ∧ p.Takes .text key ∧ p.Takes type.base item) ∨
      (type.shape = 1 ∧ p.Takes .number key ∧ p.Takes type.base item)
  | removeKey key => (type.shape = 2 ∨ type.shape = 4) ∧ p.Takes .text key

/-- The element type that a compound assignment to a variable of the type looks at. -/
def Ty.compoundElement (type : Ty) : Option Ty :=
  if type.contains .collection then some (type ^^^ .collection) else none

/-- What is known about a statement that was compiled at the place. -/
def Statement.WellPlaced (p : Place) : Statement → Prop
  | declare _ name type initial =>
    p.Free name ∧ type.isVoid = false ∧ type.Simple ∧ ∀ e, initial = some e → p.Takes type e
  | assign _ name value => ∃ type, p.scope.lookup name = some type ∧ p.Takes type value
  | compound _ name op value =>
    ∃ type, p.scope.lookup name = some type ∧ value.Typed p.context.library p.scope ∧
      Leaf.compoundTakes? op type type.compoundElement value.type = some true
  | ifChain _ arms _ => ∀ arm ∈ arms, p.Takes .boolean arm.test
  | forCount _ name count _ => p.Free name ∧ p.Takes .number count
  | forEach _ name element items _ =>
    p.Free name ∧ items.Typed p.context.library p.scope ∧
      items.plainType.contains .collection = true ∧ element = items.plainType ^^^ .collection
  | whileLoop _ test _ => p.Takes .boolean test
  | switch _ value cases _ =>
    value.Typed p.context.library p.scope ∧
      ∀ c ∈ cases, c.test.Typed p.context.library p.scope
  | breakOut => p.context.settings.strictJumps = true →
      p.context.inLoop = true ∨ p.context.inSwitch = true
  | continueOn => p.context.settings.strictJumps = true → p.context.inLoop = true
  | returnWith _ (some value) =>
    p.context.inDelay = false ∧ p.context.returns.isVoid = false ∧
      p.Takes p.context.returns value
  | returnWith _ none => p.context.returns.isVoid = true ∨ p.context.inDelay = true
  | change _ name c => ∃ type, p.scope.lookup name = some type ∧ c.WellPlaced p type
  | call _ e => e.Typed p.context.library p.scope
  | delay _ duration _ => p.Takes .number duration

/-! ### Changes -/

theorem Change.WellPlaced.typed {p : Place} {c : Change} {type : Ty} (hc : c.WellPlaced p type) :
    ∀ e ∈ c.expressions, e.Typed p.context.library p.scope := by
  intro e he
  cases c with
  | clear => cases he
  | set k item =>
    simp only [Change.expressions, List.mem_cons, List.not_mem_nil, or_false] at he
    rcases hc with hc | hc <;> rcases he with rfl | rfl
    · exact hc.2.1.1
    · exact hc.2.2.1
    · exact hc.2.1.1
    · exact hc.2.2.1
  | addKeyed k item =>
    simp only [Change.expressions, List.mem_cons, List.not_mem_nil, or_false] at he
    rcases he with rfl | rfl
    · exact hc.2.1.1
    · exact hc.2.2.1
  | add item =>
    rw [List.mem_singleton.mp he]
    exact hc.2.1
  | addRange items =>
    rw [List.mem_singleton.mp he]
    exact hc.2.1
  | remove item =>
    rw [List.mem_singleton.mp he]
    exact hc.2.1
  | removeAt index =>
    rw [List.mem_singleton.mp he]
    exact hc.2.1
  | removeKey key =>
    rw [List.mem_singleton.mp he]
    exact hc.2.1

/-! ### Pieces of lines -/

section Pieces

variable {ctx : Context} {scope : Scope} {line : Nat}

theorem expression_typed {text : List Char} {e : Checked}
    (h : ctx.expression scope line text = .ok e) : e.Typed ctx.library scope := by
  unfold Context.expression at h
  split at h
  · rename_i e' hof
    cases h
    exact Checked.ofText_typed hof
  · exact absurd h failAt_ne_ok

theorem typed_takes {role : Role} {type : Ty} {text : List Char} {e : Checked}
    (h : ctx.typed scope line role type text = .ok e) : Place.Takes ⟨ctx, scope⟩ type e := by
  simp only [Context.typed, bind_eq_ok_iff] at h
  obtain ⟨e', he, h⟩ := h
  split at h
  · rename_i hacc
    rw [pure_eq_ok_iff] at h
    subst h
    exact ⟨expression_typed he, hacc⟩
  · exact absurd h failAt_ne_ok

theorem isReserved_lower (name : String) :
    Name.isReserved (Text.lower name) = Name.isReserved name := by
  simp only [Name.isReserved, Text.lower_lower]

theorem lookup_lower (scope : Scope) (name : String) :
    scope.lookup (Text.lower name) = scope.lookup name := by
  simp only [Scope.lookup, Text.lower_lower]

theorem checkNewName_free {name : String} {u : Unit} (h : checkNewName scope line name = .ok u) :
    Place.Free ⟨ctx, scope⟩ (Text.lower name) := by
  unfold checkNewName at h
  split at h
  · exact absurd h failAt_ne_ok
  · split at h
    · exact absurd h failAt_ne_ok
    · split at h
      · exact absurd h failAt_ne_ok
      · rename_i hreserved hdeclared
        refine ⟨Text.lower_lower name, ?_, ?_⟩
        · rw [isReserved_lower]
          simpa using hreserved
        · rw [lookup_lower]
          simpa [Scope.declares] using hdeclared

theorem lookupAt_eq_ok {name : String} {type : Ty} (h : lookupAt scope line name = .ok type) :
    scope.lookup (Text.lower name) = some type := by
  unfold lookupAt at h
  split at h
  · rename_i t hlookup
    cases h
    rw [lookup_lower, hlookup]
  · exact absurd h failAt_ne_ok

theorem stripAt_eq_ok {type flag t : Ty} (h : stripAt line type flag = .ok t) :
    type.contains flag = true ∧ t = type ^^^ flag := by
  unfold stripAt at h
  split at h
  · rename_i u hstrip
    cases h
    exact Ty.strip_eq_ok_iff.mp hstrip
  · exact absurd h failAt_ne_ok

/-- Where the shape is known to be there, what is left of the type are its kinds. -/
theorem stripAt_shape {type t : Ty} {n : BitVec 3} (hshape : type.shape = n)
    (h : stripAt line type.unmarked ⟨0, n, 0⟩ = .ok t) : t = type.base := by
  unfold stripAt at h
  rw [Ty.strip_of_structural_eq hshape] at h
  cases h
  rfl

theorem target_eq_ok {shapes : List Ty} {wanted name : String} {type : Ty}
    (h : Leaf.target scope line shapes wanted name = .ok type) :
    ∃ declared, scope.lookup (Text.lower name) = some declared ∧ type = declared.unmarked ∧
      declared.structural ∈ shapes := by
  simp only [Leaf.target, bind_eq_ok_iff] at h
  obtain ⟨declared, hlookup, h⟩ := h
  split at h
  · rename_i hmem
    rw [pure_eq_ok_iff] at h
    refine ⟨declared, lookupAt_eq_ok hlookup, h.symm, ?_⟩
    simpa [List.contains_iff_mem, Ty.structural, Ty.unmarked] using hmem
  · exact absurd h failAt_ne_ok

end Pieces

/-! ### Statements of one line -/

/-- A statement without blocks that declares nothing, and that is well placed. -/
def Statement.Single (p : Place) (s : Statement) : Prop :=
  s.blocks = [] ∧ s.scopeAfter p.scope = p.scope ∧ s.WellPlaced p

section Leaves

variable {ctx : Context} {scope : Scope} {line : Nat} {s : Statement}

theorem declare_wellPlaced {name type : List Char} {initial : Option (List Char)} {t : Ty}
    (h : Leaf.declare ctx scope line name type initial = .ok (s, t)) :
    s.blocks = [] ∧ s.scopeAfter scope = scope.add (Leaf.declaredName name) t ∧
      s.WellPlaced ⟨ctx, scope⟩ := by
  simp only [Leaf.declare, bind_eq_ok_iff] at h
  obtain ⟨_, hname, h⟩ := h
  split at h
  · exact absurd h failAt_ne_ok
  · rename_i ty hread
    split at h
    · exact absurd h failAt_ne_ok
    · rename_i hvoid
      have hfree : Place.Free ⟨ctx, scope⟩ _ := checkNewName_free hname
      have hvoid' : ty.isVoid = false := by simpa using hvoid
      split at h
      · rw [pure_eq_ok_iff, Prod.mk.injEq] at h
        obtain ⟨rfl, rfl⟩ := h
        refine ⟨rfl, Scope.add_lower _ _ _, hfree, hvoid', Ty.read_simple hread, ?_⟩
        intro e he
        cases he
      · simp only [bind_eq_ok_iff, pure_eq_ok_iff, Prod.mk.injEq] at h
        obtain ⟨value, hvalue, rfl, rfl⟩ := h
        refine ⟨rfl, Scope.add_lower _ _ _, hfree, hvoid', Ty.read_simple hread, ?_⟩
        intro e he
        cases he
        exact typed_takes hvalue

theorem assign_single {name value : List Char}
    (h : Leaf.assign ctx scope line name value = .ok s) : s.Single ⟨ctx, scope⟩ := by
  simp only [Leaf.assign, bind_eq_ok_iff, pure_eq_ok_iff] at h
  obtain ⟨type, htype, e, he, rfl⟩ := h
  exact ⟨rfl, rfl, type, lookupAt_eq_ok htype, typed_takes he⟩

/-- What is known of the operand of a compound assignment, whatever its elements are. -/
theorem compound_takes {name : List Char} {op : CompoundOp} {e : Checked} {type : Ty}
    {element : Option Ty} (hlookup : lookupAt scope line (String.ofList name) = .ok type)
    (he : e.Typed ctx.library scope) (helement : element = type.compoundElement)
    (h : (match Leaf.compoundTakes? op type element e.type with
      | none => failAt line (.wrongOperator op (String.ofList name) type)
      | some false => failAt line (.wrongOperand op (String.ofList name) type e.type)
      | some true => pure (Statement.compound line (Text.lower (String.ofList name)) op e)) =
        .ok s) :
    s.Single ⟨ctx, scope⟩ := by
  split at h
  · exact absurd h failAt_ne_ok
  · exact absurd h failAt_ne_ok
  · rename_i htakes
    rw [pure_eq_ok_iff] at h
    subst h
    exact ⟨rfl, rfl, type, lookupAt_eq_ok hlookup, he, helement ▸ htakes⟩

theorem compound_single {name value : List Char} {op : CompoundOp}
    (h : Leaf.compound ctx scope line name op value = .ok s) : s.Single ⟨ctx, scope⟩ := by
  simp only [Leaf.compound, bind_eq_ok_iff] at h
  obtain ⟨type, htype, e, he, h⟩ := h
  split at h
  · rename_i hcollection
    simp only [bind_eq_ok_iff] at h
    obtain ⟨element, helement, h⟩ := h
    refine compound_takes htype (expression_typed he) ?_ h
    cases hstrip : stripAt line type .collection with
    | error f =>
      rw [hstrip] at helement
      cases helement
    | ok t =>
      rw [hstrip] at helement
      cases helement
      rw [Ty.compoundElement, if_pos hcollection, (stripAt_eq_ok hstrip).2]
  · rename_i hcollection
    simp only [bind_eq_ok_iff, pure_eq_ok_iff] at h
    obtain ⟨element, rfl, h⟩ := h
    refine compound_takes htype (expression_typed he) ?_ h
    rw [Ty.compoundElement, if_neg hcollection]

theorem breakOut_single (h : Leaf.breakOut ctx line = .ok s) : s.Single ⟨ctx, scope⟩ := by
  unfold Leaf.breakOut at h
  split at h
  · exact absurd h failAt_ne_ok
  · rename_i hcond
    cases h
    refine ⟨rfl, rfl, ?_⟩
    intro (hstrict : ctx.settings.strictJumps = true)
    rw [hstrict] at hcond
    show ctx.inLoop = true ∨ ctx.inSwitch = true
    cases hloop : ctx.inLoop with
    | true => exact Or.inl rfl
    | false => simpa [hloop] using hcond

theorem continueOn_single (h : Leaf.continueOn ctx line = .ok s) : s.Single ⟨ctx, scope⟩ := by
  unfold Leaf.continueOn at h
  split at h
  · exact absurd h failAt_ne_ok
  · rename_i hcond
    cases h
    refine ⟨rfl, rfl, ?_⟩
    intro (hstrict : ctx.settings.strictJumps = true)
    rw [hstrict] at hcond
    simpa using hcond

theorem returnWith_single {value : Option (List Char)}
    (h : Leaf.returnWith ctx scope line value = .ok s) : s.Single ⟨ctx, scope⟩ := by
  unfold Leaf.returnWith at h
  split at h
  · split at h
    · exact absurd h failAt_ne_ok
    · split at h
      · exact absurd h failAt_ne_ok
      · rename_i hdelay hvoid
        simp only [bind_eq_ok_iff, pure_eq_ok_iff] at h
        obtain ⟨e, he, rfl⟩ := h
        exact ⟨rfl, rfl, by simpa using hdelay, by simpa using hvoid, typed_takes he⟩
  · split at h
    · exact absurd h failAt_ne_ok
    · rename_i hcond
      cases h
      refine ⟨rfl, rfl, ?_⟩
      show ctx.returns.isVoid = true ∨ ctx.inDelay = true
      cases hvoid : ctx.returns.isVoid with
      | true => exact Or.inl rfl
      | false => simpa [hvoid] using hcond

theorem addItem_single {name item : List Char} {key : Option (List Char)}
    (h : Leaf.addItem ctx scope line name key item = .ok s) : s.Single ⟨ctx, scope⟩ := by
  cases key with
  | none =>
    simp only [Leaf.addItem, bind_eq_ok_iff, pure_eq_ok_iff] at h
    obtain ⟨_, htarget, element, helement, e, he, rfl⟩ := h
    obtain ⟨type, hlookup, rfl, hshape⟩ := target_eq_ok htarget
    have hshape' := Ty.structural_eq_collection_iff.mp (List.mem_singleton.mp hshape)
    rw [stripAt_shape hshape' helement] at he
    exact ⟨rfl, rfl, type, hlookup, hshape', typed_takes he⟩
  | some key =>
    simp only [Leaf.addItem, bind_eq_ok_iff, pure_eq_ok_iff] at h
    obtain ⟨_, htarget, k, hk, element, helement, e, he, rfl⟩ := h
    obtain ⟨type, hlookup, rfl, hshape⟩ := target_eq_ok htarget
    have hshape' := Ty.structural_eq_groups_iff.mp (List.mem_singleton.mp hshape)
    rw [stripAt_shape hshape' helement] at he
    exact ⟨rfl, rfl, type, hlookup, hshape', typed_takes hk, typed_takes he⟩

theorem addRange_single {name items : List Char}
    (h : Leaf.addRange ctx scope line name items = .ok s) : s.Single ⟨ctx, scope⟩ := by
  simp only [Leaf.addRange, bind_eq_ok_iff, pure_eq_ok_iff] at h
  obtain ⟨_, htarget, e, he, rfl⟩ := h
  obtain ⟨type, hlookup, rfl, hshape⟩ := target_eq_ok htarget
  have hshape' := Ty.structural_eq_collection_iff.mp (List.mem_singleton.mp hshape)
  obtain ⟨htyped, haccepts⟩ := typed_takes he
  rw [Ty.accepts_unmarked_left] at haccepts
  exact ⟨rfl, rfl, type, hlookup, hshape', htyped, haccepts⟩

theorem removeItem_single {name item : List Char}
    (h : Leaf.removeItem ctx scope line name item = .ok s) : s.Single ⟨ctx, scope⟩ := by
  simp only [Leaf.removeItem, bind_eq_ok_iff, pure_eq_ok_iff] at h
  obtain ⟨_, htarget, element, helement, e, he, rfl⟩ := h
  obtain ⟨type, hlookup, rfl, hshape⟩ := target_eq_ok htarget
  have hshape' := Ty.structural_eq_collection_iff.mp (List.mem_singleton.mp hshape)
  rw [stripAt_shape hshape' helement] at he
  exact ⟨rfl, rfl, type, hlookup, hshape', typed_takes he⟩

theorem removeAt_single {name index : List Char}
    (h : Leaf.removeAt ctx scope line name index = .ok s) : s.Single ⟨ctx, scope⟩ := by
  simp only [Leaf.removeAt, bind_eq_ok_iff, pure_eq_ok_iff] at h
  obtain ⟨_, htarget, e, he, rfl⟩ := h
  obtain ⟨type, hlookup, -, hshape⟩ := target_eq_ok htarget
  have hshape' := Ty.structural_eq_collection_iff.mp (List.mem_singleton.mp hshape)
  exact ⟨rfl, rfl, type, hlookup, hshape', typed_takes he⟩

theorem clearItems_single {name : List Char}
    (h : Leaf.clearItems scope line name = .ok s) : s.Single ⟨ctx, scope⟩ := by
  simp only [Leaf.clearItems, bind_eq_ok_iff, pure_eq_ok_iff] at h
  obtain ⟨_, htarget, rfl⟩ := h
  obtain ⟨type, hlookup, -, hshape⟩ := target_eq_ok htarget
  simp only [List.mem_cons, List.not_mem_nil, or_false, Ty.structural_eq_collection_iff,
    Ty.structural_eq_dictionary_iff, Ty.structural_eq_groups_iff] at hshape
  exact ⟨rfl, rfl, type, hlookup, hshape⟩

theorem setItem_single {name key item : List Char}
    (h : Leaf.setItem ctx scope line name key item = .ok s) : s.Single ⟨ctx, scope⟩ := by
  simp only [Leaf.setItem, bind_eq_ok_iff, pure_eq_ok_iff] at h
  obtain ⟨_, htarget, k, hk, element, helement, e, he, rfl⟩ := h
  obtain ⟨type, hlookup, rfl, hshape⟩ := target_eq_ok htarget
  refine ⟨rfl, rfl, type, hlookup, ?_⟩
  simp only [List.mem_cons, List.not_mem_nil, or_false, Ty.structural_eq_collection_iff,
    Ty.structural_eq_dictionary_iff] at hshape
  rcases hshape with hshape | hshape
  · have hdict : type.unmarked.contains .dictionary = true :=
      Ty.contains_dictionary_iff.mpr (by simp [Ty.unmarked, hshape])
    simp only [hdict, if_true] at hk helement
    rw [stripAt_shape hshape helement] at he
    exact Or.inl ⟨hshape, typed_takes hk, typed_takes he⟩
  · have hdict : type.unmarked.contains .dictionary = false := by
      rw [Bool.eq_false_iff, ne_eq, Ty.contains_dictionary_iff]
      simp [Ty.unmarked, hshape]
    simp only [hdict, Bool.false_eq_true, if_false] at hk helement
    rw [stripAt_shape hshape helement] at he
    exact Or.inr ⟨hshape, typed_takes hk, typed_takes he⟩

theorem removeKey_single {name key : List Char}
    (h : Leaf.removeKey ctx scope line name key = .ok s) : s.Single ⟨ctx, scope⟩ := by
  simp only [Leaf.removeKey, bind_eq_ok_iff, pure_eq_ok_iff] at h
  obtain ⟨_, htarget, e, he, rfl⟩ := h
  obtain ⟨type, hlookup, -, hshape⟩ := target_eq_ok htarget
  simp only [List.mem_cons, List.not_mem_nil, or_false, Ty.structural_eq_dictionary_iff,
    Ty.structural_eq_groups_iff] at hshape
  exact ⟨rfl, rfl, type, hlookup, hshape, typed_takes he⟩

theorem call_single {text : List Char}
    (h : Leaf.call ctx scope line text = .ok s) : s.Single ⟨ctx, scope⟩ := by
  simp only [Leaf.call, bind_eq_ok_iff, pure_eq_ok_iff] at h
  obtain ⟨e, he, rfl⟩ := h
  exact ⟨rfl, rfl, expression_typed he⟩

end Leaves

/-! ### Statements of several lines -/

section Heads

variable {ctx : Context} {inner : Option Next} {scope : Scope} {line : Nat} {rest : List Line}
  {step : Step}

theorem forCount_wellPlaced {name count : List Char}
    (h : compileForCount ctx inner scope line rest name count = .ok step) :
    step.statement.WellPlaced ⟨ctx, scope⟩ := by
  simp only [compileForCount, bind_eq_ok_iff, pure_eq_ok_iff] at h
  obtain ⟨_, hname, _, _, count, hcount, _, _, rfl⟩ := h
  exact ⟨checkNewName_free hname, typed_takes hcount⟩

theorem forEach_wellPlaced {name items : List Char}
    (h : compileForEach ctx inner scope line rest name items = .ok step) :
    step.statement.WellPlaced ⟨ctx, scope⟩ := by
  simp only [compileForEach, bind_eq_ok_iff] at h
  obtain ⟨_, hname, _, _, items, hitems, h⟩ := h
  split at h
  · rename_i hcollection
    simp only [bind_eq_ok_iff, pure_eq_ok_iff] at h
    obtain ⟨element, helement, _, _, rfl⟩ := h
    exact ⟨checkNewName_free hname, expression_typed hitems, hcollection,
      (stripAt_eq_ok helement).2⟩
  · exact absurd h failAt_ne_ok

theorem while_wellPlaced {test : List Char}
    (h : compileWhile ctx inner scope line rest test = .ok step) :
    step.statement.WellPlaced ⟨ctx, scope⟩ := by
  simp only [compileWhile, bind_eq_ok_iff, pure_eq_ok_iff] at h
  obtain ⟨_, _, _, htest, _, _, rfl⟩ := h
  exact typed_takes htest

theorem delay_wellPlaced {duration : List Char}
    (h : compileDelay ctx inner scope line rest duration = .ok step) :
    step.statement.WellPlaced ⟨ctx, scope⟩ := by
  simp only [compileDelay, bind_eq_ok_iff, pure_eq_ok_iff] at h
  obtain ⟨_, _, _, hduration, _, _, rfl⟩ := h
  exact typed_takes hduration

theorem chain_takes {next : Next} {opening n : Nat} {test : Checked} {start : List Line}
    {chain : Chain} (htest : Place.Takes ⟨ctx, scope⟩ .boolean test)
    (h : Chain.readWithin ctx next opening scope n line test start = .ok chain) :
    ∀ arm ∈ chain.arms, Place.Takes ⟨ctx, scope⟩ .boolean arm.test := by
  induction n generalizing line test start chain with
  | zero => exact absurd h failAt_ne_ok
  | succ n ih =>
    simp only [Chain.readWithin, bind_eq_ok_iff] at h
    obtain ⟨block, _, h⟩ := h
    split at h
    · rw [pure_eq_ok_iff] at h
      subst h
      simpa [Section.test] using htest
    · split at h
      · simp only [bind_eq_ok_iff, pure_eq_ok_iff] at h
        obtain ⟨test', htest', more, hmore, rfl⟩ := h
        intro arm harm
        rcases List.mem_cons.mp harm with rfl | harm
        · exact htest
        · exact ih (typed_takes htest') hmore arm harm
      · simp only [bind_eq_ok_iff] at h
        obtain ⟨last, _, h⟩ := h
        split at h
        · rw [pure_eq_ok_iff] at h
          subst h
          simpa [Section.test] using htest
        · exact absurd h failAt_ne_ok

theorem if_wellPlaced {test : List Char}
    (h : compileIf ctx inner scope line rest test = .ok step) :
    step.statement.WellPlaced ⟨ctx, scope⟩ := by
  simp only [compileIf, bind_eq_ok_iff, pure_eq_ok_iff] at h
  obtain ⟨_, _, _, htest, chain, hchain, rfl⟩ := h
  exact chain_takes (typed_takes htest) hchain

theorem cases_typed {next : Next} {opening n : Nat} {type : Ty} {start : List Line}
    {cases : Cases} (h : Cases.readWithin ctx next opening scope type n start = .ok cases) :
    ∀ c ∈ cases.cases, c.test.Typed ctx.library scope := by
  induction n generalizing start cases with
  | zero => cases start <;> exact absurd h failAt_ne_ok
  | succ n ih =>
    cases start with
    | nil => exact absurd h failAt_ne_ok
    | cons line rest =>
      simp only [Cases.readWithin] at h
      split at h
      · rw [pure_eq_ok_iff] at h
        subst h
        simp
      · split at h
        · simp only [bind_eq_ok_iff, pure_eq_ok_iff, Cases.caseValue] at h
          obtain ⟨value, ⟨value', hvalue, h⟩, block, _, more, hmore, rfl⟩ := h
          intro c hc
          rcases List.mem_cons.mp hc with rfl | hc
          · split at h
            · cases h
              exact expression_typed hvalue
            · exact absurd h failAt_ne_ok
          · exact ih hmore c hc
        · split at h
          · simp only [bind_eq_ok_iff] at h
            obtain ⟨block, _, h⟩ := h
            split at h
            · rw [pure_eq_ok_iff] at h
              subst h
              simp
            · exact absurd h failAt_ne_ok
          · exact absurd h failAt_ne_ok

theorem switch_wellPlaced {value : List Char}
    (h : compileSwitch ctx inner scope line rest value = .ok step) :
    step.statement.WellPlaced ⟨ctx, scope⟩ := by
  simp only [compileSwitch, bind_eq_ok_iff, pure_eq_ok_iff] at h
  obtain ⟨_, _, _, hvalue, cases, hcases, rfl⟩ := h
  exact ⟨expression_typed hvalue, cases_typed hcases⟩

end Heads

/-! ### All statements -/

section Compiled

variable {lines : List Line} {ctx : Context} {inner : Context → Option Next} {scope : Scope}

theorem single_opens {line : Line} {rest : List Line} {c : Compile Statement} {step : Step}
    (hrest : rest <:+ lines) (hc : ∀ s, c = .ok s → s.Single ⟨ctx, scope⟩)
    (h : Step.single scope line rest c = .ok step) :
    Opens lines ⟨ctx, scope⟩ step ∧ step.statement.WellPlaced ⟨ctx, scope⟩ := by
  simp only [Step.single, bind_eq_ok_iff, pure_eq_ok_iff] at h
  obtain ⟨s, hs, rfl⟩ := h
  obtain ⟨hblocks, hscope, hplaced⟩ := hc s hs
  refine ⟨⟨hrest, hscope.symm, ?_⟩, hplaced⟩
  intro body (hbody : body ∈ s.blocks)
  rw [hblocks] at hbody
  cases hbody

theorem compileForm_opens (hinner : ∀ inside next, inner inside = some next →
      Faithful lines inside next)
    {line : Line} {rest : List Line} {form : LineForm} {step : Step} (hrest : rest <:+ lines)
    (h : compileForm ctx inner scope line rest form = .ok step) :
    Opens lines ⟨ctx, scope⟩ step ∧ step.statement.WellPlaced ⟨ctx, scope⟩ := by
  cases form with
  | declare name type initial =>
    simp only [compileForm, bind_eq_ok_iff, pure_eq_ok_iff] at h
    obtain ⟨⟨s, t⟩, hs, rfl⟩ := h
    obtain ⟨hblocks, hscope, hplaced⟩ := declare_wellPlaced hs
    refine ⟨⟨hrest, hscope.symm, ?_⟩, hplaced⟩
    intro body (hbody : body ∈ s.blocks)
    rw [hblocks] at hbody
    cases hbody
  | ifChain test => exact ⟨opens_if (hinner _) hrest h, if_wellPlaced h⟩
  | forCount name count => exact ⟨opens_forCount (hinner _) hrest h, forCount_wellPlaced h⟩
  | forEach name items => exact ⟨opens_forEach (hinner _) hrest h, forEach_wellPlaced h⟩
  | whileLoop test => exact ⟨opens_while (hinner _) hrest h, while_wellPlaced h⟩
  | switch value => exact ⟨opens_switch (hinner _) hrest h, switch_wellPlaced h⟩
  | delay duration => exact ⟨opens_delay (hinner _) hrest h, delay_wellPlaced h⟩
  | breakOut => exact single_opens hrest (fun _ => breakOut_single) h
  | continueOn => exact single_opens hrest (fun _ => continueOn_single) h
  | returnWith value => exact single_opens hrest (fun _ => returnWith_single) h
  | addItem name key item => exact single_opens hrest (fun _ => addItem_single) h
  | addRange name items => exact single_opens hrest (fun _ => addRange_single) h
  | removeItem name item => exact single_opens hrest (fun _ => removeItem_single) h
  | removeAt name index => exact single_opens hrest (fun _ => removeAt_single) h
  | clearItems name => exact single_opens hrest (fun _ => clearItems_single) h
  | setItem name key item => exact single_opens hrest (fun _ => setItem_single) h
  | removeKey name key => exact single_opens hrest (fun _ => removeKey_single) h
  | separator => exact absurd h failAt_ne_ok
  | compound name op value => exact single_opens hrest (fun _ => compound_single) h
  | assign name value => exact single_opens hrest (fun _ => assign_single) h
  | call => exact single_opens hrest (fun _ => call_single) h

theorem compileLine_opens (hinner : ∀ inside next, inner inside = some next →
      Faithful lines inside next)
    {start : List Line} {step : Step} (hstart : start <:+ lines)
    (h : compileLine ctx inner scope start = .ok step) :
    Opens lines ⟨ctx, scope⟩ step ∧ step.statement.WellPlaced ⟨ctx, scope⟩ := by
  cases start with
  | nil => exact absurd h failAt_ne_ok
  | cons line rest =>
    simp only [compileLine] at h
    split at h
    · exact absurd h failAt_ne_ok
    · exact compileForm_opens hinner (tail_suffix hstart) h

theorem Opens.everywhere {p : Place} {step : Step} (h : Opens lines p step)
    (hs : Produced lines p step.statement) :
    Everywhere (Produced lines) p [step.statement] :=
  everywhere_cons_iff.mpr ⟨hs, everywhere_nil, h.2.2⟩

theorem compileNext_faithful (lines : List Line) (budget : Nat) (ctx : Context) :
    Faithful lines ctx (compileNext budget ctx) := by
  induction budget generalizing ctx with
  | zero =>
    intro scope start step hstart h
    obtain ⟨hopens, -⟩ := compileLine_opens (fun _ _ h => by cases h) hstart h
    exact ⟨hopens.1, hopens.2.1, hopens.everywhere ⟨0, start, step, hstart, h, rfl⟩⟩
  | succ budget ih =>
    intro scope start step hstart h
    have hinner : ∀ inside next, some (compileNext budget inside) = some next →
        Faithful lines inside next := by
      rintro inside next ⟨⟩
      exact ih inside
    obtain ⟨hopens, -⟩ := compileLine_opens hinner hstart h
    exact ⟨hopens.1, hopens.2.1, hopens.everywhere ⟨budget + 1, start, step, hstart, h, rfl⟩⟩

theorem compileNext_wellPlaced {budget : Nat} {start : List Line} {step : Step}
    (h : compileNext budget ctx scope start = .ok step) :
    step.statement.WellPlaced ⟨ctx, scope⟩ := by
  cases budget with
  | zero => exact (compileLine_opens (fun _ _ h => by cases h) (List.suffix_refl start) h).2
  | succ budget =>
    have hinner : ∀ inside next, some (compileNext budget inside) = some next →
        Faithful start inside next := by
      rintro inside next ⟨⟩
      exact compileNext_faithful start budget inside
    exact (compileLine_opens hinner (List.suffix_refl start) h).2

theorem Produced.wellPlaced {p : Place} {s : Statement} (h : Produced lines p s) :
    s.WellPlaced p := by
  obtain ⟨budget, start, step, -, hstep, rfl⟩ := h
  exact compileNext_wellPlaced hstep

theorem Faithful.compileWithin {next : Next} (hnext : Faithful lines ctx next) {n : Nat}
    {start : List Line} {l : List Statement} (hstart : start <:+ lines)
    (h : compileWithin next n scope start = .ok l) :
    Everywhere (Produced lines) ⟨ctx, scope⟩ l := by
  induction n generalizing scope start l with
  | zero =>
    cases start with
    | nil =>
      cases h
      exact everywhere_nil
    | cons line rest => exact absurd h failAt_ne_ok
  | succ n ih =>
    cases start with
    | nil =>
      cases h
      exact everywhere_nil
    | cons line rest =>
      simp only [WorldScript.compileWithin, bind_eq_ok_iff, pure_eq_ok_iff] at h
      obtain ⟨step, hstep, more, hmore, rfl⟩ := h
      obtain ⟨hrem, hscope, hstmt⟩ := hnext _ _ _ hstart hstep
      refine everywhere_cons_iff.mpr ⟨hstmt.head, ?_, fun b hb => hstmt.block hb⟩
      simpa only [Place.after, ← hscope] using ih hrem hmore

end Compiled

/-! ### Whole programs -/

/-- The context of the statements at the top of a program. -/
def Definition.context (library : Library) (settings : Settings) (d : Definition) : Context :=
  { library, settings, returns := d.returns }

/-- What is known about a program that was compiled; `scope` are its parameters. -/
structure Definition.Compiled (library : Library) (settings : Settings) (d : Definition)
    (p : Program) (scope : Scope) : Prop where
  returns : p.returns = d.returns
  parameters : p.parameters = d.parameters.map fun (name, type) => (Text.lower name, type)
  declared : addParameters .empty d.parameters = .ok scope
  produced :
    Everywhere (Produced (Source.lines d.source)) ⟨d.context library settings, scope⟩ p.body
  returnsAll : p.returns.isVoid = false → Statement.returnsAll p.body = true

theorem Definition.compiled {library : Library} {settings : Settings} {d : Definition} {p : Program}
    (h : d.compile library settings = .ok p) : ∃ scope, d.Compiled library settings p scope := by
  simp only [Definition.compile, compileBody, bind_eq_ok_iff] at h
  obtain ⟨scope, hscope, body, ⟨l, hl, hbody⟩, h⟩ := h
  rw [pure_eq_ok_iff] at h
  subst h
  split at hbody
  · exact absurd hbody failAt_ne_ok
  · rename_i hreturns
    rw [pure_eq_ok_iff] at hbody
    subst hbody
    refine ⟨scope, rfl, rfl, hscope, ?_, ?_⟩
    · exact (compileNext_faithful _ settings.maxNesting _).compileWithin (List.suffix_refl _) hl
    · intro (hvoid : d.returns.isVoid = false)
      simpa [hvoid] using hreturns

end WorldScript
