import WorldScript.Program.Arguments
import WorldScript.Proofs.Compile.Heads

/-! # Flags that are stripped

Types are taken apart where an expression is indexed, in `foreach`, in compound assignments, in the
statements that change structures, and where arguments are checked. To strip a flag from a type that
does not have it is a fault. Each of these places tests the type beforehand, but not in the same
way: some ask for one flag among others, some for a shape that is the only one, some for one of
several shapes, with the marks of the type or without them. Whatever flags a type has, the test
implies that the flag is there.

* `Guarded r`: the computation `r` does not end with such a fault.
* `Tree.check_guarded`: expressions.
* `Head.ofForm_guarded`: what a single line asks for.
* `strip_faults_unreachable`: whole sources and argument lists. -/

namespace WorldScript

/-! ### Types -/

namespace Ty

theorem strip_of_contains {t flag : Ty} (h : t.contains flag = true) :
    t.strip flag = .ok (t ^^^ flag) := strip_eq_ok_iff.mpr ⟨h, rfl⟩

theorem contains_structural (t : Ty) : t.contains t.structural = true := by
  simp [contains_iff, structural]

/-- The first flag that a type is found to have is the one that is stripped. -/
theorem indexing?_ne_fault (t key : Ty) (f : StripFault) : t.indexing? ≠ some (key, .error f) := by
  unfold indexing?
  split
  · rename_i h
    rw [strip_of_contains h]
    simp
  · split
    · rename_i h
      rw [strip_of_contains h]
      simp
    · split
      · rename_i h
        rw [strip_of_contains h]
        simp [Except.map]
      · simp

theorem exists_element (t : Ty) : ∃ e, t.element = .ok e := by
  unfold element
  split
  · exact ⟨_, rfl⟩
  · rename_i flag hflag
    rw [strip_of_contains (contains_of_outerShape? hflag)]
    exact ⟨_, rfl⟩

theorem exists_mismatch? (t : Ty) (h : Heap) (v : Value) : ∃ m, t.mismatch? h v = .ok m := by
  obtain ⟨e, he⟩ := t.exists_element
  unfold mismatch?
  rw [he]
  cases e with
  | none => exact ⟨_, rfl⟩
  | some element =>
    simp only [bind, Except.bind]
    split <;> exact ⟨_, rfl⟩

end Ty

namespace Program

theorem bindAll_ne_strip (program : String) (h : Heap) (pairs : List ((String × Ty) × Value))
    (vars : Space) (f : Ty.StripFault) : bindAll program h pairs vars ≠ .error (.strip f) := by
  induction pairs generalizing vars with
  | nil => simp [bindAll]
  | cons pair rest ih =>
    obtain ⟨⟨name, type⟩, v⟩ := pair
    obtain ⟨m, hm⟩ := type.exists_mismatch? h v
    simp only [bindAll, hm]
    cases m with
    | none => exact ih _
    | some actual => simp

end Program

/-! ### Expressions -/

/-- A flag was stripped from a type without it. -/
def TypeError.isStrip : TypeError → Bool
  | strip _ => true
  | _ => false

/-- A flag was stripped from a type without it, in a statement or in one of its expressions. -/
def CompileFault.isStrip : CompileFault → Bool
  | strip _ => true
  | expression (.type e) => e.isStrip
  | _ => false

namespace Checked

theorem ofUnary_guarded {op : UnaryOp} {e : Checked} {fault : TypeError}
    (h : ofUnary op e = .error fault) : fault.isStrip = false := by
  unfold ofUnary at h
  split at h
  · split at h
    · cases h
    · cases h
      rfl
  · split at h
    · cases h
    · cases h
      rfl

theorem ofBinary_guarded {op : BinaryOp} {l r : Checked} {fault : TypeError}
    (h : ofBinary op l r = .error fault) : fault.isStrip = false := by
  have honly : fault = .cannotApply op l.plainType r.plainType := by
    -- the one failure of every operator
    cases op <;> simp only [ofBinary] at h <;> split at h
    case add.isFalse =>
      split at h
      · cases h
      · cases h
        rfl
    all_goals
      cases h
      try rfl
  rw [honly]
  rfl

theorem ofIndex_guarded {t k : Checked} {fault : TypeError} (h : ofIndex t k = .error fault) :
    fault.isStrip = false := by
  unfold ofIndex at h
  split at h
  · cases h
    rfl
  · rename_i key f hfault
    exact absurd hfault (Ty.indexing?_ne_fault _ key f)
  · split at h
    · cases h
    · cases h
      rfl

end Checked

namespace Tree

variable {lib : Library} {scope : Scope}

mutual

/-- **Expressions.** No part of a tree is indexed by a flag that its type does not have. -/
theorem check_guarded : ∀ {t : Tree} {fault : TypeError}, t.check lib scope = .error fault →
    fault.isStrip = false
  | number n, fault, h => by cases h
  | text s, fault, h => by cases h
  | boolean b, fault, h => by cases h
  | var name, fault, h => by
    simp only [check] at h
    split at h
    · cases h
    · cases h
      rfl
  | unary op t, fault, h => by
    simp only [check, bind_eq_error_iff] at h
    rcases h with h | ⟨e, -, h⟩
    · exact check_guarded h
    · exact Checked.ofUnary_guarded h
  | binary op l r, fault, h => by
    simp only [check, bind_eq_error_iff] at h
    rcases h with h | ⟨left, -, h | ⟨right, -, h⟩⟩
    · exact check_guarded h
    · exact check_guarded h
    · exact Checked.ofBinary_guarded h
  | index t k, fault, h => by
    simp only [check, bind_eq_error_iff] at h
    rcases h with h | ⟨target, -, h | ⟨key, -, h⟩⟩
    · exact check_guarded h
    · exact check_guarded h
    · exact Checked.ofIndex_guarded h
  | call name args, fault, h => by
    simp only [check, bind_eq_error_iff] at h
    rcases h with h | ⟨es, -, h⟩
    · exact checkAll_guarded h
    · split at h
      · cases h
      · cases h
        rfl

theorem checkAll_guarded : ∀ {ts : List Tree} {fault : TypeError},
    checkAll lib scope ts = .error fault → fault.isStrip = false
  | [], fault, h => by cases h
  | t :: ts, fault, h => by
    simp only [checkAll, bind_eq_error_iff] at h
    rcases h with h | ⟨e, -, h | ⟨es, -, h⟩⟩
    · exact check_guarded h
    · exact checkAll_guarded h
    · cases h

end

end Tree

/-! ### Computations -/

/-- The computation does not fail because a flag was stripped from a type without it. -/
def Guarded {α : Type} (r : Compile α) : Prop := ∀ e, r = .error e → e.fault.isStrip = false

namespace Guarded

variable {α β : Type}

theorem ok (a : α) : Guarded (.ok a) := by
  rintro e ⟨⟩

theorem pure (a : α) : Guarded (Pure.pure a : Compile α) := ok a

theorem failAt {n : Nat} {fault : CompileFault} (h : fault.isStrip = false) :
    Guarded (WorldScript.failAt n fault : Compile α) := by
  rintro e ⟨⟩
  exact h

theorem bind {x : Compile α} {k : α → Compile β} (hx : Guarded x)
    (hk : ∀ a, x = .ok a → Guarded (k a)) : Guarded (x >>= k) := by
  intro e h
  rcases bind_eq_error_iff.mp h with h | ⟨a, ha, h⟩
  · exact hx e h
  · exact hk a ha e h

theorem map {x : Compile α} (hx : Guarded x) (f : α → β) : Guarded (f <$> x) := by
  rw [map_eq_pure_bind]
  exact hx.bind fun a _ => pure _

end Guarded

/-! ### Pieces of lines -/

section Pieces

variable (ctx : Context) (scope : Scope) (n : Nat)

theorem expression_guarded (text : List Char) : Guarded (ctx.expression scope n text) := by
  unfold Context.expression
  split
  · exact .ok _
  · rename_i fault hfault
    refine .failAt ?_
    unfold Checked.ofText at hfault
    split at hfault
    · cases hfault
      rfl
    · rename_i t _
      cases hcheck : t.check ctx.library scope with
      | ok e =>
        rw [hcheck] at hfault
        cases hfault
      | error f =>
        rw [hcheck] at hfault
        cases hfault
        exact Tree.check_guarded hcheck

theorem typed_guarded (role : Role) (expected : Ty) (text : List Char) :
    Guarded (ctx.typed scope n role expected text) := by
  refine (expression_guarded ctx scope n text).bind fun e _ => ?_
  split
  · exact .pure _
  · exact .failAt rfl

theorem checkNewName_guarded (name : String) : Guarded (checkNewName scope n name) := by
  unfold checkNewName
  split
  · exact .failAt rfl
  · split
    · exact .failAt rfl
    · split
      · exact .failAt rfl
      · exact .ok _

theorem lookupAt_guarded (name : String) : Guarded (lookupAt scope n name) := by
  unfold lookupAt
  split
  · exact .ok _
  · exact .failAt rfl

theorem checkRoom_guarded (room : Bool) (limit : Nat) : Guarded (checkRoom room limit n) := by
  unfold checkRoom
  split
  · exact .ok _
  · exact .failAt rfl

theorem target_guarded (shapes : List Ty) (wanted name : String) :
    Guarded (Leaf.target scope n shapes wanted name) := by
  refine (lookupAt_guarded scope n name).bind fun type _ => ?_
  dsimp only
  split
  · exact .pure _
  · exact .failAt rfl

theorem caseValue_guarded (type : Ty) (text : List Char) :
    Guarded (Cases.caseValue ctx scope n type text) := by
  refine (expression_guarded ctx scope n text).bind fun value _ => ?_
  split
  · exact .pure _
  · exact .failAt rfl

/-- A flag that is there can be stripped. -/
theorem stripAt_guarded {type flag : Ty} (h : type.contains flag = true) :
    Guarded (stripAt n type flag) := by
  unfold stripAt
  rw [Ty.strip_of_contains h]
  exact .ok _

end Pieces

/-- A variable that must have one of some shapes contains the shape it has. -/
theorem contains_of_target {scope : Scope} {n : Nat} {shapes : List Ty} {wanted name : String}
    {type : Ty} (h : Leaf.target scope n shapes wanted name = .ok type) :
    type.structural ∈ shapes ∧ type.contains type.structural = true := by
  obtain ⟨declared, -, rfl, hmem⟩ := target_eq_ok h
  exact ⟨hmem, Ty.contains_structural _⟩

/-- A variable that must have this one shape contains it. -/
theorem contains_of_target_singleton {scope : Scope} {n : Nat} {shape : Ty} {wanted name : String}
    {type : Ty} (h : Leaf.target scope n [shape] wanted name = .ok type) :
    type.contains shape = true := by
  obtain ⟨hmem, hcontains⟩ := contains_of_target h
  rw [List.mem_singleton.mp hmem] at hcontains
  exact hcontains

/-! ### Statements of one line -/

namespace Leaf

variable (ctx : Context) (scope : Scope) (n : Nat)

theorem declare_guarded (name type : List Char) (initial : Option (List Char)) :
    Guarded (declare ctx scope n name type initial) := by
  refine (checkNewName_guarded scope n _).bind fun _ _ => ?_
  split
  · exact .failAt rfl
  · split
    · exact .failAt rfl
    · split
      · exact .pure _
      · exact (typed_guarded ctx scope n _ _ _).bind fun value _ => .pure _

theorem assign_guarded (name value : List Char) : Guarded (assign ctx scope n name value) := by
  refine (lookupAt_guarded scope n _).bind fun type _ => ?_
  exact (typed_guarded ctx scope n _ _ _).bind fun value _ => .pure _

/-- A compound assignment strips the flag it has just found. -/
theorem compound_guarded (name : List Char) (op : CompoundOp) (value : List Char) :
    Guarded (compound ctx scope n name op value) := by
  refine (lookupAt_guarded scope n _).bind fun type _ => ?_
  refine (expression_guarded ctx scope n _).bind fun value _ => ?_
  -- with and without an element type
  split
  · rename_i h
    refine ((stripAt_guarded n h).map some).bind fun _ _ => ?_
    dsimp only
    split
    · exact .failAt rfl
    · exact .failAt rfl
    · exact .pure _
  · refine (Guarded.pure _).bind fun _ _ => ?_
    dsimp only
    split
    · exact .failAt rfl
    · exact .failAt rfl
    · exact .pure _

theorem breakOut_guarded : Guarded (breakOut ctx n) := by
  unfold breakOut
  split
  · exact .failAt rfl
  · exact .ok _

theorem continueOn_guarded : Guarded (continueOn ctx n) := by
  unfold continueOn
  split
  · exact .failAt rfl
  · exact .ok _

theorem returnWith_guarded (value : Option (List Char)) :
    Guarded (returnWith ctx scope n value) := by
  unfold returnWith
  split
  · split
    · exact .failAt rfl
    · split
      · exact .failAt rfl
      · exact (typed_guarded ctx scope n _ _ _).bind fun value _ => .pure _
  · split
    · exact .failAt rfl
    · exact .ok _

theorem addItem_guarded (name : List Char) (key : Option (List Char)) (item : List Char) :
    Guarded (addItem ctx scope n name key item) := by
  cases key with
  | none =>
    refine (target_guarded scope n _ _ _).bind fun type htype => ?_
    refine (stripAt_guarded n (contains_of_target_singleton htype)).bind fun element _ => ?_
    exact (typed_guarded ctx scope n _ _ _).bind fun item _ => .pure _
  | some key =>
    refine (target_guarded scope n _ _ _).bind fun type htype => ?_
    refine (typed_guarded ctx scope n _ _ _).bind fun key _ => ?_
    refine (stripAt_guarded n (contains_of_target_singleton htype)).bind fun element _ => ?_
    exact (typed_guarded ctx scope n _ _ _).bind fun item _ => .pure _

theorem addRange_guarded (name items : List Char) : Guarded (addRange ctx scope n name items) := by
  refine (target_guarded scope n _ _ _).bind fun type _ => ?_
  exact (typed_guarded ctx scope n _ _ _).bind fun items _ => .pure _

theorem removeItem_guarded (name item : List Char) :
    Guarded (removeItem ctx scope n name item) := by
  refine (target_guarded scope n _ _ _).bind fun type htype => ?_
  refine (stripAt_guarded n (contains_of_target_singleton htype)).bind fun element _ => ?_
  exact (typed_guarded ctx scope n _ _ _).bind fun item _ => .pure _

theorem removeAt_guarded (name index : List Char) : Guarded (removeAt ctx scope n name index) := by
  refine (target_guarded scope n _ _ _).bind fun type _ => ?_
  exact (typed_guarded ctx scope n _ _ _).bind fun index _ => .pure _

theorem clearItems_guarded (name : List Char) : Guarded (clearItems scope n name) :=
  (target_guarded scope n _ _ _).bind fun _ _ => .pure _

/-- With two shapes to choose from, the one that is stripped is found by looking for a dictionary;
if there is none, the only shape is that of a collection. -/
theorem setItem_guarded (name key item : List Char) :
    Guarded (setItem ctx scope n name key item) := by
  refine (target_guarded scope n _ _ _).bind fun type htype => ?_
  obtain ⟨hmem, hcontains⟩ := contains_of_target htype
  by_cases hdict : type.contains .dictionary = true
  · simp only [if_pos hdict]
    refine (typed_guarded ctx scope n _ _ _).bind fun key _ => ?_
    refine (stripAt_guarded n hdict).bind fun element _ => ?_
    exact (typed_guarded ctx scope n _ _ _).bind fun item _ => .pure _
  · have hshape : type.structural = .collection := by
      rcases List.mem_cons.mp hmem with h | h
      · exact absurd (h ▸ hcontains) hdict
      · exact List.mem_singleton.mp h
    simp only [if_neg hdict]
    refine (typed_guarded ctx scope n _ _ _).bind fun key _ => ?_
    refine (stripAt_guarded n (hshape ▸ hcontains)).bind fun element _ => ?_
    exact (typed_guarded ctx scope n _ _ _).bind fun item _ => .pure _

theorem removeKey_guarded (name key : List Char) : Guarded (removeKey ctx scope n name key) := by
  refine (target_guarded scope n _ _ _).bind fun type _ => ?_
  exact (typed_guarded ctx scope n _ _ _).bind fun key _ => .pure _

theorem call_guarded (text : List Char) : Guarded (call ctx scope n text) :=
  (expression_guarded ctx scope n text).bind fun _ _ => .pure _

end Leaf

/-! ### Heads and dividers -/

/-- **What a line asks for** is found without a fault, form by form. -/
theorem Head.ofForm_guarded (ctx : Context) (room : Bool) (scope : Scope) (line : Line)
    (form : LineForm) : Guarded (ofForm ctx room scope line form) := by
  have hleaf : ∀ {s : Compile Statement}, Guarded s → Guarded (ofLeaf scope s) :=
    fun hs => hs.bind fun s _ => .pure _
  have hroom : ∀ {α : Type} {k : Unit → Compile α}, Guarded (k ()) →
      Guarded (checkRoom room ctx.settings.maxNesting line.number >>= k) :=
    fun hk => (checkRoom_guarded line.number room _).bind fun _ _ => hk
  cases form with
  | declare name type initial =>
    exact (Leaf.declare_guarded ctx scope line.number name type initial).bind fun _ _ => .pure _
  | ifChain test => exact hroom ((typed_guarded ctx scope _ _ _ _).bind fun test _ => .pure _)
  | forCount name count =>
    refine (checkNewName_guarded scope _ _).bind fun _ _ => hroom ?_
    exact (typed_guarded ctx scope _ _ _ _).bind fun count _ => .pure _
  | forEach name items =>
    refine (checkNewName_guarded scope _ _).bind fun _ _ => hroom ?_
    refine (expression_guarded ctx scope _ _).bind fun collection _ => ?_
    dsimp only
    split
    · rename_i h
      exact (stripAt_guarded _ h).bind fun element _ => .pure _
    · exact .failAt rfl
  | whileLoop test => exact hroom ((typed_guarded ctx scope _ _ _ _).bind fun test _ => .pure _)
  | switch value => exact hroom ((expression_guarded ctx scope _ _).bind fun value _ => .pure _)
  | delay duration => exact hroom ((typed_guarded ctx scope _ _ _ _).bind fun test _ => .pure _)
  | breakOut => exact hleaf (Leaf.breakOut_guarded ctx _)
  | continueOn => exact hleaf (Leaf.continueOn_guarded ctx _)
  | returnWith value => exact hleaf (Leaf.returnWith_guarded ctx scope _ value)
  | addItem name key item => exact hleaf (Leaf.addItem_guarded ctx scope _ name key item)
  | addRange name items => exact hleaf (Leaf.addRange_guarded ctx scope _ name items)
  | removeItem name item => exact hleaf (Leaf.removeItem_guarded ctx scope _ name item)
  | removeAt name index => exact hleaf (Leaf.removeAt_guarded ctx scope _ name index)
  | clearItems name => exact hleaf (Leaf.clearItems_guarded scope _ name)
  | setItem name key item => exact hleaf (Leaf.setItem_guarded ctx scope _ name key item)
  | removeKey name key => exact hleaf (Leaf.removeKey_guarded ctx scope _ name key)
  | separator => exact .failAt rfl
  | compound name op value => exact hleaf (Leaf.compound_guarded ctx scope _ name op value)
  | assign name value => exact hleaf (Leaf.assign_guarded ctx scope _ name value)
  | call => exact hleaf (Leaf.call_guarded ctx scope _ _)

theorem Head.ofLine_guarded (ctx : Context) (room : Bool) (scope : Scope) (line : Line) :
    Guarded (ofLine ctx room scope line) := by
  unfold ofLine
  split
  · exact .failAt rfl
  · exact ofForm_guarded ctx room scope line _

theorem Divider.ofArm_guarded (ctx : Context) (scope : Scope) (line : Line) :
    Guarded (ofArm ctx scope line) := by
  unfold ofArm
  split
  · exact .ok _
  · split
    · exact (typed_guarded ctx scope _ _ _ _).bind fun test _ => .pure _
    · exact .ok _

theorem Divider.ofSection_guarded (ctx : Context) (scope : Scope) (type : Ty) (line : Line) :
    Guarded (ofSection ctx scope type line) := by
  unfold ofSection
  split
  · exact .ok _
  · split
    · exact (caseValue_guarded ctx scope _ _ _).bind fun value _ => .pure _
    · split
      · exact .ok _
      · exact .failAt rfl

theorem checkEnd_guarded (word : String) {fault : CompileFault} (hfault : fault.isStrip = false)
    (line : Line) : Guarded (checkEnd word fault line) := by
  unfold checkEnd
  split
  · exact .ok _
  · exact .failAt hfault

/-! ### Blocks -/

section Blocks

variable {next : Next} (hnext : ∀ scope lines, Guarded (next scope lines))

include hnext

theorem Block.readWithin_guarded (isEnd : List Char → Bool) {unterminated : CompileError}
    (hfault : unterminated.fault.isStrip = false) (n : Nat) (scope : Scope) (lines : List Line) :
    Guarded (Block.readWithin next isEnd unterminated n scope lines) := by
  have hend : Guarded (.error unterminated : Compile Block) := by
    rintro e ⟨⟩
    exact hfault
  induction n generalizing scope lines with
  | zero => cases lines <;> exact hend
  | succ n ih =>
    cases lines with
    | nil => exact hend
    | cons line rest =>
      simp only [Block.readWithin]
      split
      · exact .ok _
      · refine (hnext _ _).bind fun step _ => ?_
        exact (ih _ _).bind fun _ _ => .pure _

theorem Block.read_guarded (isEnd : List Char → Bool) (word : String) (opening : Nat)
    (scope : Scope) (lines : List Line) :
    Guarded (Block.read next isEnd word opening scope lines) :=
  Block.readWithin_guarded hnext isEnd rfl _ _ _

theorem Chain.readWithin_guarded (ctx : Context) (opening : Nat) (scope : Scope) (n line : Nat)
    (test : Checked) (lines : List Line) :
    Guarded (Chain.readWithin ctx next opening scope n line test lines) := by
  induction n generalizing line test lines with
  | zero => exact .failAt rfl
  | succ n ih =>
    rw [Chain.readWithin_cons]
    refine (Block.read_guarded hnext _ _ _ _ _).bind fun block _ => ?_
    refine (Divider.ofArm_guarded ctx scope _).bind fun divider _ => ?_
    cases divider with
    | finish => exact .pure _
    | guard test => exact (ih _ _ _).bind fun _ _ => .pure _
    | last =>
      refine (Block.read_guarded hnext _ _ _ _ _).bind fun last _ => ?_
      exact (checkEnd_guarded "if" rfl _).bind fun _ _ => .pure _

theorem Cases.readWithin_guarded (ctx : Context) (opening : Nat) (scope : Scope) (type : Ty)
    (n : Nat) (lines : List Line) :
    Guarded (Cases.readWithin ctx next opening scope type n lines) := by
  induction n generalizing lines with
  | zero => cases lines <;> exact .failAt rfl
  | succ n ih =>
    cases lines with
    | nil => exact .failAt rfl
    | cons line rest =>
      rw [Cases.readWithin_cons]
      refine (Divider.ofSection_guarded ctx scope type line).bind fun divider _ => ?_
      cases divider with
      | finish => exact .pure _
      | guard value =>
        refine (Block.read_guarded hnext _ _ _ _ _).bind fun block _ => ?_
        exact (ih _).bind fun _ _ => .pure _
      | last =>
        refine (Block.read_guarded hnext _ _ _ _ _).bind fun block _ => ?_
        exact (checkEnd_guarded "switch" rfl _).bind fun _ _ => .pure _

theorem compileWithin_guarded (n : Nat) (scope : Scope) (lines : List Line) :
    Guarded (compileWithin next n scope lines) := by
  induction n generalizing scope lines with
  | zero =>
    cases lines with
    | nil => exact .ok _
    | cons line rest => exact .failAt rfl
  | succ n ih =>
    cases lines with
    | nil => exact .ok _
    | cons line rest =>
      simp only [compileWithin]
      refine (hnext _ _).bind fun step _ => ?_
      exact (ih _ _).bind fun _ _ => .pure _

end Blocks

/-! ### Whole sources -/

theorem Head.read_guarded {next : Context → Next}
    (hnext : ∀ inside scope lines, Guarded (next inside scope lines)) (ctx : Context)
    (scope : Scope) (line : Line) (rest : List Line) (head : Head) :
    Guarded (head.read ctx next scope line rest) := by
  cases head with
  | leaf statement after => exact .ok _
  | block word inside bodyScope make =>
    exact (Block.read_guarded (hnext inside) _ word _ _ _).bind fun _ _ => .pure _
  | arms test =>
    exact (Chain.readWithin_guarded (hnext ctx) ctx _ _ _ _ _ _).bind fun _ _ => .pure _
  | sections value =>
    refine (Cases.readWithin_guarded (hnext ctx.switching) ctx _ _ _ _ _).bind fun _ _ => ?_
    exact .pure _

/-- A statement with its blocks. By induction on the budget, of which the statements of a block have
less. -/
theorem compileNext_guarded (budget : Nat) (ctx : Context) (scope : Scope) (lines : List Line) :
    Guarded (compileNext budget ctx scope lines) := by
  induction budget using Nat.strongRecOn generalizing ctx scope lines with
  | ind budget ih =>
    cases lines with
    | nil => cases budget <;> exact .failAt rfl
    | cons line rest =>
      rw [compileNext_cons]
      refine (Head.ofLine_guarded ctx _ scope line).bind fun head hhead => ?_
      rcases Nat.eq_zero_or_pos budget with rfl | hpos
      · -- without a budget the line is the whole statement
        obtain ⟨s, after, rfl⟩ := Head.eq_leaf_of_ofLine hhead
        exact .ok _
      · exact Head.read_guarded (fun inside => ih (budget - 1) (by omega) inside) ctx _ _ _ head

theorem compileBody_guarded (ctx : Context) (scope : Scope) (lines : List Line) :
    Guarded (compileBody ctx scope lines) := by
  refine .bind (compileWithin_guarded (compileNext_guarded _ ctx) _ _ _) fun statements _ => ?_
  split
  · exact .failAt rfl
  · exact .pure _

/-- **No flag is stripped that is not there.** Neither the compilation of a source, in whatever
context and scope, nor the check of arguments against whatever parameters ends with the fault that a
flag was stripped from a type without it: not in a statement, not in an expression, and not in an
argument, nor in an element of one, whatever type is wanted of it. -/
theorem strip_faults_unreachable (ctx : Context) (scope : Scope) (lines : List Line)
    (program : Program) (arguments : List Value) (h : Heap) (line : Nat) (f : Ty.StripFault) :
    compileBody ctx scope lines ≠ .error ⟨line, .strip f⟩ ∧
      compileBody ctx scope lines ≠ .error ⟨line, .expression (.type (.strip f))⟩ ∧
      program.bindArguments arguments h ≠ .error (.strip f) ∧
      ∀ (type : Ty) (v : Value), type.mismatch? h v ≠ .error f := by
  refine ⟨fun heq => ?_, fun heq => ?_, fun heq => ?_, fun type v heq => ?_⟩
  · cases compileBody_guarded ctx scope lines _ heq
  · cases compileBody_guarded ctx scope lines _ heq
  · unfold Program.bindArguments at heq
    split at heq
    · cases heq
    · rcases bind_eq_error_iff.mp heq with heq | ⟨vars, -, heq⟩
      · exact Program.bindAll_ne_strip _ _ _ _ _ heq
      · split at heq <;> cases heq
  · obtain ⟨m, hm⟩ := type.exists_mismatch? h v
    cases hm.symm.trans heq

end WorldScript
