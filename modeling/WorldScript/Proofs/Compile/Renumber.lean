import WorldScript.Program.Basic

/-! # Other numbers for the lines

The compiler looks at the texts of the lines only. Their numbers go into the statements and into the
error, and nothing is decided by them: with other numbers on the lines, the result has these numbers
in the same places. A *renumbering* is a function on line numbers; `0`, which stands for no line,
must stay `0`.

* `Statement.renumber`, `CompileError.renumber`: the renumbering of what the compiler gives.
* `Commutes f next`: renumbering before and after `next` is the same. It is shown here for blocks,
  chains and cases, given that it holds of the statements in them.
* `compileNext_commutes`, `compileBody_renumber`: the statement for the compiler. -/

namespace WorldScript

/-- The line with another number. -/
def Line.renumber (f : Nat → Nat) (l : Line) : Line := ⟨f l.number, l.text⟩

namespace Statement

mutual

/-- The statement with other line numbers. -/
def renumber (f : Nat → Nat) : Statement → Statement
  | declare line name type initial => declare (f line) name type initial
  | assign line name value => assign (f line) name value
  | compound line name op value => compound (f line) name op value
  | ifChain line arms otherwise =>
    ifChain (f line) (renumberSections f arms) (renumberLast f otherwise)
  | forCount line name count body => forCount (f line) name count (renumberAll f body)
  | forEach line name element items body =>
    forEach (f line) name element items (renumberAll f body)
  | whileLoop line test body => whileLoop (f line) test (renumberAll f body)
  | switch line value cases otherwise =>
    switch (f line) value (renumberSections f cases) (renumberLast f otherwise)
  | breakOut => breakOut
  | continueOn => continueOn
  | returnWith line value => returnWith (f line) value
  | change line name c => change (f line) name c
  | call line e => call (f line) e
  | delay line duration body => delay (f line) duration (renumberAll f body)

/-- The statements with other line numbers. -/
def renumberAll (f : Nat → Nat) : List Statement → List Statement
  | [] => []
  | s :: rest => renumber f s :: renumberAll f rest

/-- The sections with other line numbers. -/
def renumberSections (f : Nat → Nat) : List Section → List Section
  | [] => []
  | .mk line test body :: rest => .mk (f line) test (renumberAll f body) :: renumberSections f rest

/-- The last part of a choice, if there is one, with other line numbers. -/
def renumberLast (f : Nat → Nat) : Option (List Statement) → Option (List Statement)
  | none => none
  | some body => some (renumberAll f body)

end

mutual

/-- Which paths return does not depend on the numbers. -/
theorem returns_renumber (f : Nat → Nat) : ∀ s : Statement, (s.renumber f).returns = s.returns
  | ifChain _ arms (some body) => by
    simp only [renumber, renumberLast, returns, returnsAll_renumber f body,
      sectionsReturn_renumber f arms]
  | switch _ _ cases (some body) => by
    simp only [renumber, renumberLast, returns, returnsAll_renumber f body,
      sectionsReturn_renumber f cases]
  | ifChain _ _ none => rfl
  | switch _ _ _ none => rfl
  | returnWith _ _ => rfl
  | declare _ _ _ _ => rfl
  | assign _ _ _ => rfl
  | compound _ _ _ _ => rfl
  | forCount _ _ _ _ => rfl
  | forEach _ _ _ _ _ => rfl
  | whileLoop _ _ _ => rfl
  | breakOut => rfl
  | continueOn => rfl
  | change _ _ _ => rfl
  | call _ _ => rfl
  | delay _ _ _ => rfl

theorem returnsAll_renumber (f : Nat → Nat) (l : List Statement) :
    returnsAll (renumberAll f l) = returnsAll l := by
  cases l with
  | nil => rfl
  | cons s rest =>
    have hs := returns_renumber f s
    have hrest := returnsAll_renumber f rest
    cases s with
    | breakOut => rfl
    | continueOn => rfl
    | _ =>
      simp only [renumberAll, renumber] at hs hrest ⊢
      simp only [returnsAll, hs, hrest]

theorem sectionsReturn_renumber (f : Nat → Nat) :
    ∀ l : List Section, sectionsReturn (renumberSections f l) = sectionsReturn l
  | [] => rfl
  | .mk _ _ body :: rest => by
    simp only [renumberSections, sectionsReturn, returnsAll_renumber f body,
      sectionsReturn_renumber f rest]

end

end Statement

/-- The error on another line. -/
def CompileError.renumber (f : Nat → Nat) (e : CompileError) : CompileError := ⟨f e.line, e.fault⟩

/-! ### Results -/

namespace Compile

variable {α β : Type} {f : Nat → Nat}

/-- The result with other line numbers, where `g` does this to what is compiled. -/
def renumber (f : Nat → Nat) (g : α → β) : Compile α → Compile β
  | .ok a => .ok (g a)
  | .error e => .error (e.renumber f)

theorem renumber_pure (g : α → β) (a : α) : renumber f g (pure a) = pure (g a) := rfl

theorem renumber_failAt (g : α → β) (line : Nat) (fault : CompileFault) :
    renumber f g (failAt line fault) = failAt (f line) fault := rfl

/-- A computation is renumbered step by step: `g` for what its first step gives, `g'` for the
result. -/
theorem renumber_bind {α' β' : Type} {x : Compile α} {k : α → Compile β} {g : α → α'} {g' : β → β'}
    {k' : α' → Compile β'} (h : ∀ a, renumber f g' (k a) = k' (g a)) :
    renumber f g' (x >>= k) = renumber f g x >>= k' := by
  cases x with
  | ok a => exact h a
  | error e => rfl

/-- The same where the first step gives something without line numbers. -/
theorem renumber_bind_id {β' : Type} (x : Compile α) (k : α → Compile β) (g : β → β') :
    renumber f g (x >>= k) = renumber f id x >>= fun a => renumber f g (k a) :=
  renumber_bind fun _ => rfl

theorem renumber_ite (g : α → β) (c : Prop) [Decidable c] (x y : Compile α) :
    renumber f g (if c then x else y) = if c then renumber f g x else renumber f g y :=
  apply_ite (renumber f g) c x y

end Compile

open Compile (renumber_pure renumber_failAt renumber_bind renumber_bind_id renumber_ite)

/-! ### Pieces of lines -/

section Pieces

variable (f : Nat → Nat) (ctx : Context) (scope : Scope) (line : Nat)

theorem renumber_expression (text : List Char) :
    Compile.renumber f id (ctx.expression scope line text) =
      ctx.expression scope (f line) text := by
  unfold Context.expression
  split <;> rfl

theorem renumber_typed (role : Role) (expected : Ty) (text : List Char) :
    Compile.renumber f id (ctx.typed scope line role expected text) =
      ctx.typed scope (f line) role expected text := by
  simp only [Context.typed, renumber_bind_id, renumber_expression, renumber_ite, renumber_failAt,
    renumber_pure, id_eq]

theorem renumber_stripAt (type flag : Ty) :
    Compile.renumber f id (stripAt line type flag) = stripAt (f line) type flag := by
  unfold stripAt
  split <;> rfl

theorem renumber_checkNewName (name : String) :
    Compile.renumber f id (checkNewName scope line name) = checkNewName scope (f line) name := by
  simp only [checkNewName, renumber_ite, renumber_failAt]
  rfl

theorem renumber_lookupAt (name : String) :
    Compile.renumber f id (lookupAt scope line name) = lookupAt scope (f line) name := by
  unfold lookupAt
  split <;> rfl

theorem renumber_target (shapes : List Ty) (wanted name : String) :
    Compile.renumber f id (Leaf.target scope line shapes wanted name) =
      Leaf.target scope (f line) shapes wanted name := by
  simp only [Leaf.target, renumber_bind_id, renumber_lookupAt, renumber_ite, renumber_failAt,
    renumber_pure, id_eq]

end Pieces

/-! ### Statements of one line -/

namespace Leaf

variable (f : Nat → Nat) (ctx : Context) (scope : Scope) (line : Nat)

open Statement (renumber)

theorem renumber_declare (name type : List Char) (initial : Option (List Char)) :
    Compile.renumber f (Prod.map (renumber f) id) (declare ctx scope line name type initial) =
      declare ctx scope (f line) name type initial := by
  simp only [declare, renumber_bind_id, renumber_checkNewName]
  congr 1
  funext _
  split
  · rfl
  · split
    · rfl
    · split
      · rfl
      · simp only [renumber_bind_id, renumber_typed, renumber_pure, Prod.map, renumber, id_eq]

theorem renumber_assign (name value : List Char) :
    Compile.renumber f (renumber f) (assign ctx scope line name value) =
      assign ctx scope (f line) name value := by
  simp only [assign, renumber_bind_id, renumber_lookupAt, renumber_typed, renumber_pure, renumber]

theorem renumber_compound (name : List Char) (op : CompoundOp) (value : List Char) :
    Compile.renumber f (renumber f) (compound ctx scope line name op value) =
      compound ctx scope (f line) name op value := by
  have helement : ∀ type : Ty, Compile.renumber f id (some <$> stripAt line type .collection) =
      some <$> stripAt (f line) type .collection := by
    intro type
    rw [← renumber_stripAt]
    cases stripAt line type .collection <;> rfl
  simp only [compound, renumber_bind_id, renumber_lookupAt, renumber_expression]
  congr 1
  funext type
  congr 1
  funext value
  -- with and without an element type
  rw [renumber_ite]
  split
  · rw [renumber_bind_id, helement]
    congr 1
    funext element
    split <;> rfl
  · rw [renumber_bind_id]
    congr 1
    funext element
    split <;> rfl

theorem renumber_breakOut :
    Compile.renumber f (renumber f) (breakOut ctx line) = breakOut ctx (f line) := by
  unfold breakOut
  split <;> rfl

theorem renumber_continueOn :
    Compile.renumber f (renumber f) (continueOn ctx line) = continueOn ctx (f line) := by
  unfold continueOn
  split <;> rfl

theorem renumber_returnWith (value : Option (List Char)) :
    Compile.renumber f (renumber f) (returnWith ctx scope line value) =
      returnWith ctx scope (f line) value := by
  unfold returnWith
  split
  · split
    · rfl
    · split
      · rfl
      · simp only [renumber_bind_id, renumber_typed, renumber_pure, renumber]
  · split <;> rfl

theorem renumber_addItem (name : List Char) (key : Option (List Char)) (item : List Char) :
    Compile.renumber f (renumber f) (addItem ctx scope line name key item) =
      addItem ctx scope (f line) name key item := by
  cases key <;>
    simp only [addItem, renumber_bind_id, renumber_target, renumber_stripAt, renumber_typed,
      renumber_pure, renumber]

theorem renumber_addRange (name items : List Char) :
    Compile.renumber f (renumber f) (addRange ctx scope line name items) =
      addRange ctx scope (f line) name items := by
  simp only [addRange, renumber_bind_id, renumber_target, renumber_typed, renumber_pure, renumber]

theorem renumber_removeItem (name item : List Char) :
    Compile.renumber f (renumber f) (removeItem ctx scope line name item) =
      removeItem ctx scope (f line) name item := by
  simp only [removeItem, renumber_bind_id, renumber_target, renumber_stripAt, renumber_typed,
    renumber_pure, renumber]

theorem renumber_removeAt (name index : List Char) :
    Compile.renumber f (renumber f) (removeAt ctx scope line name index) =
      removeAt ctx scope (f line) name index := by
  simp only [removeAt, renumber_bind_id, renumber_target, renumber_typed, renumber_pure, renumber]

theorem renumber_clearItems (name : List Char) :
    Compile.renumber f (renumber f) (clearItems scope line name) =
      clearItems scope (f line) name := by
  simp only [clearItems, renumber_bind_id, renumber_target, renumber_pure, renumber]

theorem renumber_setItem (name key item : List Char) :
    Compile.renumber f (renumber f) (setItem ctx scope line name key item) =
      setItem ctx scope (f line) name key item := by
  simp only [setItem, renumber_bind_id, renumber_target, renumber_stripAt, renumber_typed,
    renumber_pure, renumber]

theorem renumber_removeKey (name key : List Char) :
    Compile.renumber f (renumber f) (removeKey ctx scope line name key) =
      removeKey ctx scope (f line) name key := by
  simp only [removeKey, renumber_bind_id, renumber_target, renumber_typed, renumber_pure, renumber]

theorem renumber_call (text : List Char) :
    Compile.renumber f (renumber f) (call ctx scope line text) =
      call ctx scope (f line) text := by
  simp only [call, renumber_bind_id, renumber_expression, renumber_pure, renumber]

end Leaf

/-! ### Statements of several lines -/

/-- The step with other line numbers. -/
def Step.renumber (f : Nat → Nat) (s : Step) : Step :=
  ⟨s.statement.renumber f, s.remaining.map (Line.renumber f), s.scope, f s.line⟩

/-- The block with other line numbers. -/
def Block.renumber (f : Nat → Nat) (b : Block) : Block :=
  ⟨Statement.renumberAll f b.statements, b.terminator.renumber f,
    b.remaining.map (Line.renumber f)⟩

/-- The arms with other line numbers. -/
def Chain.renumber (f : Nat → Nat) (c : Chain) : Chain :=
  ⟨Statement.renumberSections f c.arms, Statement.renumberLast f c.otherwise,
    c.terminator.renumber f, c.remaining.map (Line.renumber f)⟩

/-- The sections with other line numbers. -/
def Cases.renumber (f : Nat → Nat) (c : Cases) : Cases :=
  ⟨Statement.renumberSections f c.cases, Statement.renumberLast f c.otherwise,
    c.terminator.renumber f, c.remaining.map (Line.renumber f)⟩

/-- Compiling renumbered lines is renumbering what is compiled. -/
def Commutes (f : Nat → Nat) (next : Next) : Prop :=
  ∀ scope lines, next scope (lines.map (Line.renumber f)) =
    Compile.renumber f (Step.renumber f) (next scope lines)

section Blocks

variable {f : Nat → Nat} {next : Next}

theorem Commutes.readWithin (hnext : Commutes f next) (isEnd : List Char → Bool)
    (unterminated : CompileError) (n : Nat) (scope : Scope) (lines : List Line) :
    Block.readWithin next isEnd (unterminated.renumber f) n scope (lines.map (Line.renumber f)) =
      Compile.renumber f (Block.renumber f)
        (Block.readWithin next isEnd unterminated n scope lines) := by
  induction n generalizing scope lines with
  | zero => cases lines <;> rfl
  | succ n ih =>
    cases lines with
    | nil => rfl
    | cons line rest =>
      simp only [List.map_cons, Block.readWithin, renumber_ite]
      have htext : (line.renumber f).text = line.text := rfl
      rw [htext]
      split
      · rfl
      · rw [← List.map_cons, hnext]
        refine (renumber_bind fun step => ?_).symm
        simp only [Step.renumber]
        rw [ih]
        exact renumber_bind fun block => rfl

theorem Commutes.read (hnext : Commutes f next) (isEnd : List Char → Bool) (word : String)
    (opening : Nat) (scope : Scope) (lines : List Line) :
    Block.read next isEnd word (f opening) scope (lines.map (Line.renumber f)) =
      Compile.renumber f (Block.renumber f) (Block.read next isEnd word opening scope lines) := by
  unfold Block.read
  rw [List.length_map]
  exact hnext.readWithin isEnd ⟨opening, .unterminated word⟩ _ scope lines

theorem Commutes.chain (hnext : Commutes f next) (ctx : Context) (opening : Nat) (scope : Scope)
    (n line : Nat) (test : Checked) (lines : List Line) :
    Chain.readWithin ctx next (f opening) scope n (f line) test (lines.map (Line.renumber f)) =
      Compile.renumber f (Chain.renumber f)
        (Chain.readWithin ctx next opening scope n line test lines) := by
  induction n generalizing line test lines with
  | zero => rfl
  | succ n ih =>
    simp only [Chain.readWithin, hnext.read]
    refine (renumber_bind fun block => ?_).symm
    have htext : (block.renumber f).terminator.text = block.terminator.text := rfl
    have hnumber : (block.renumber f).terminator.number = f block.terminator.number := rfl
    have hremaining : (block.renumber f).remaining = block.remaining.map (Line.renumber f) := rfl
    rw [htext, hnumber, hremaining]
    by_cases hend : LineForm.isEnd "if" block.terminator.text.toList = true
    · rw [if_pos hend, if_pos hend]
      rfl
    · rw [if_neg hend, if_neg hend]
      cases LineForm.elseIf? block.terminator.text.toList with
      | some test =>
        refine (renumber_bind_id _ _ _).trans ?_
        rw [renumber_typed]
        congr 1
        funext test
        rw [ih]
        exact renumber_bind fun chain => rfl
      | none =>
        simp only [hnext.read]
        refine renumber_bind fun last => ?_
        rw [renumber_ite]
        rfl

theorem renumber_caseValue (f : Nat → Nat) (ctx : Context) (scope : Scope) (line : Nat) (type : Ty)
    (text : List Char) :
    Compile.renumber f id (Cases.caseValue ctx scope line type text) =
      Cases.caseValue ctx scope (f line) type text := by
  simp only [Cases.caseValue, renumber_bind_id, renumber_expression, renumber_ite, renumber_failAt,
    renumber_pure, id_eq]

theorem Commutes.cases (hnext : Commutes f next) (ctx : Context) (opening : Nat) (scope : Scope)
    (type : Ty) (n : Nat) (lines : List Line) :
    Cases.readWithin ctx next (f opening) scope type n (lines.map (Line.renumber f)) =
      Compile.renumber f (Cases.renumber f)
        (Cases.readWithin ctx next opening scope type n lines) := by
  induction n generalizing lines with
  | zero => cases lines <;> rfl
  | succ n ih =>
    cases lines with
    | nil => rfl
    | cons line rest =>
      simp only [List.map_cons, Cases.readWithin, renumber_ite]
      have htext : (line.renumber f).text = line.text := rfl
      have hnumber : (line.renumber f).number = f line.number := rfl
      rw [htext, hnumber]
      split
      · rfl
      · split
        · rw [← renumber_caseValue, hnext.read]
          refine (renumber_bind fun value => ?_).symm
          refine renumber_bind fun block => ?_
          have hlines : (block.renumber f).terminator :: (block.renumber f).remaining =
              (block.terminator :: block.remaining).map (Line.renumber f) := rfl
          rw [hlines, ih]
          exact renumber_bind fun more => rfl
        · rw [renumber_ite]
          split
          · rw [hnext.read]
            refine (renumber_bind fun block => ?_).symm
            rw [renumber_ite]
            rfl
          · rfl

end Blocks

section Statements

variable {f : Nat → Nat} {inner : Option Next}
  (hinner : ∀ next, inner = some next → Commutes f next) (ctx : Context) (scope : Scope)
  (line : Nat) (rest : List Line)

/-- A computation that goes on with the compilation of the statements of a block. -/
theorem renumber_nested {α β : Type} {limit : Nat} {g : α → β} {k : Next → Compile α}
    {k' : Next → Compile β}
    (h : ∀ next, inner = some next → Compile.renumber f g (k next) = k' next) :
    Compile.renumber f g (nested limit line inner >>= k) = nested limit (f line) inner >>= k' := by
  cases inner with
  | none => rfl
  | some next => exact h next rfl

include hinner

theorem renumber_forCount (name count : List Char) :
    Compile.renumber f (Step.renumber f) (compileForCount ctx inner scope line rest name count) =
      compileForCount ctx inner scope (f line) (rest.map (Line.renumber f)) name count := by
  simp only [compileForCount]
  rw [renumber_bind_id, renumber_checkNewName]
  congr 1
  funext _
  refine renumber_nested line fun next hnext => ?_
  rw [renumber_bind_id, renumber_typed]
  congr 1
  funext count
  unfold Block.readEnd
  rw [(hinner next hnext).read]
  exact renumber_bind fun block => rfl

theorem renumber_forEach (name items : List Char) :
    Compile.renumber f (Step.renumber f) (compileForEach ctx inner scope line rest name items) =
      compileForEach ctx inner scope (f line) (rest.map (Line.renumber f)) name items := by
  simp only [compileForEach]
  rw [renumber_bind_id, renumber_checkNewName]
  congr 1
  funext _
  refine renumber_nested line fun next hnext => ?_
  rw [renumber_bind_id, renumber_expression]
  congr 1
  funext collection
  rw [renumber_ite]
  split
  · rw [renumber_bind_id, renumber_stripAt]
    congr 1
    funext element
    unfold Block.readEnd
    rw [(hinner next hnext).read]
    exact renumber_bind fun block => rfl
  · rfl

theorem renumber_if (test : List Char) :
    Compile.renumber f (Step.renumber f) (compileIf ctx inner scope line rest test) =
      compileIf ctx inner scope (f line) (rest.map (Line.renumber f)) test := by
  refine renumber_nested line fun next hnext => ?_
  rw [renumber_bind_id, renumber_typed]
  congr 1
  funext test
  unfold Chain.read
  rw [List.length_map, (hinner next hnext).chain]
  exact renumber_bind fun chain => rfl

theorem renumber_while (test : List Char) :
    Compile.renumber f (Step.renumber f) (compileWhile ctx inner scope line rest test) =
      compileWhile ctx inner scope (f line) (rest.map (Line.renumber f)) test := by
  refine renumber_nested line fun next hnext => ?_
  rw [renumber_bind_id, renumber_typed]
  congr 1
  funext test
  unfold Block.readEnd
  rw [(hinner next hnext).read]
  exact renumber_bind fun block => rfl

theorem renumber_switch (value : List Char) :
    Compile.renumber f (Step.renumber f) (compileSwitch ctx inner scope line rest value) =
      compileSwitch ctx inner scope (f line) (rest.map (Line.renumber f)) value := by
  refine renumber_nested line fun next hnext => ?_
  rw [renumber_bind_id, renumber_expression]
  congr 1
  funext value
  unfold Cases.read
  rw [List.length_map, (hinner next hnext).cases]
  exact renumber_bind fun cases => rfl

theorem renumber_delay (duration : List Char) :
    Compile.renumber f (Step.renumber f) (compileDelay ctx inner scope line rest duration) =
      compileDelay ctx inner scope (f line) (rest.map (Line.renumber f)) duration := by
  refine renumber_nested line fun next hnext => ?_
  rw [renumber_bind_id, renumber_typed]
  congr 1
  funext duration
  unfold Block.readEnd
  rw [(hinner next hnext).read]
  exact renumber_bind fun block => rfl

end Statements

/-! ### All statements -/

section Compiled

variable {f : Nat → Nat} {ctx : Context} {inner : Context → Option Next}

theorem renumber_single (scope : Scope) (line : Line) (rest : List Line) {s s' : Compile Statement}
    (h : Compile.renumber f (Statement.renumber f) s = s') :
    Compile.renumber f (Step.renumber f) (Step.single scope line rest s) =
      Step.single scope (line.renumber f) (rest.map (Line.renumber f)) s' := by
  subst h
  exact renumber_bind fun s => rfl

theorem renumber_compileForm (hinner : ∀ inside next, inner inside = some next → Commutes f next)
    (scope : Scope) (line : Line) (rest : List Line) (form : LineForm) :
    Compile.renumber f (Step.renumber f) (compileForm ctx inner scope line rest form) =
      compileForm ctx inner scope (line.renumber f) (rest.map (Line.renumber f)) form := by
  cases form with
  | declare name type initial =>
    have hdeclare := Leaf.renumber_declare f ctx scope line.number name type initial
    simp only [compileForm]
    rw [show (line.renumber f).number = f line.number from rfl, ← hdeclare]
    exact renumber_bind fun st => rfl
  | ifChain test => exact renumber_if (hinner _) ctx scope line.number rest test
  | forCount name count => exact renumber_forCount (hinner _) ctx scope line.number rest name count
  | forEach name items => exact renumber_forEach (hinner _) ctx scope line.number rest name items
  | whileLoop test => exact renumber_while (hinner _) ctx scope line.number rest test
  | switch value => exact renumber_switch (hinner _) ctx scope line.number rest value
  | delay duration => exact renumber_delay (hinner _) ctx scope line.number rest duration
  | breakOut => exact renumber_single scope line rest (Leaf.renumber_breakOut f ctx _)
  | continueOn => exact renumber_single scope line rest (Leaf.renumber_continueOn f ctx _)
  | returnWith value =>
    exact renumber_single scope line rest (Leaf.renumber_returnWith f ctx scope _ value)
  | addItem name key item =>
    exact renumber_single scope line rest (Leaf.renumber_addItem f ctx scope _ name key item)
  | addRange name items =>
    exact renumber_single scope line rest (Leaf.renumber_addRange f ctx scope _ name items)
  | removeItem name item =>
    exact renumber_single scope line rest (Leaf.renumber_removeItem f ctx scope _ name item)
  | removeAt name index =>
    exact renumber_single scope line rest (Leaf.renumber_removeAt f ctx scope _ name index)
  | clearItems name =>
    exact renumber_single scope line rest (Leaf.renumber_clearItems f scope _ name)
  | setItem name key item =>
    exact renumber_single scope line rest (Leaf.renumber_setItem f ctx scope _ name key item)
  | removeKey name key =>
    exact renumber_single scope line rest (Leaf.renumber_removeKey f ctx scope _ name key)
  | separator => rfl
  | compound name op value =>
    exact renumber_single scope line rest (Leaf.renumber_compound f ctx scope _ name op value)
  | assign name value =>
    exact renumber_single scope line rest (Leaf.renumber_assign f ctx scope _ name value)
  | call => exact renumber_single scope line rest (Leaf.renumber_call f ctx scope _ _)

theorem compileLine_commutes (h0 : f 0 = 0)
    (hinner : ∀ inside next, inner inside = some next → Commutes f next) :
    Commutes f (compileLine ctx inner) := by
  intro scope lines
  cases lines with
  | nil =>
    show failAt 0 .endOfSource = failAt (f 0) .endOfSource
    rw [h0]
  | cons line rest =>
    simp only [List.map_cons, compileLine]
    rw [show (line.renumber f).text = line.text from rfl]
    split
    · rfl
    · exact (renumber_compileForm hinner scope line rest _).symm

/-- The compiler does not look at the numbers of the lines. -/
theorem compileNext_commutes (h0 : f 0 = 0) (budget : Nat) (ctx : Context) :
    Commutes f (compileNext budget ctx) := by
  induction budget generalizing ctx with
  | zero => exact compileLine_commutes h0 fun _ _ h => by cases h
  | succ budget ih =>
    refine compileLine_commutes h0 ?_
    rintro inside next ⟨⟩
    exact ih inside

theorem Commutes.compileWithin {next : Next} (hnext : Commutes f next) (n : Nat) (scope : Scope)
    (lines : List Line) :
    WorldScript.compileWithin next n scope (lines.map (Line.renumber f)) =
      Compile.renumber f (Statement.renumberAll f)
        (WorldScript.compileWithin next n scope lines) := by
  induction n generalizing scope lines with
  | zero => cases lines <;> rfl
  | succ n ih =>
    cases lines with
    | nil => rfl
    | cons line rest =>
      simp only [List.map_cons, WorldScript.compileWithin]
      rw [← List.map_cons, hnext]
      refine (renumber_bind fun step => ?_).symm
      simp only [Step.renumber]
      rw [ih]
      exact renumber_bind fun more => rfl

/-- With other numbers on the lines, the body has these numbers, and so has the error. -/
theorem compileBody_renumber (h0 : f 0 = 0) (ctx : Context) (scope : Scope) (lines : List Line) :
    compileBody ctx scope (lines.map (Line.renumber f)) =
      Compile.renumber f (Statement.renumberAll f) (compileBody ctx scope lines) := by
  have hlast : ((lines.map (Line.renumber f)).getLast?.map (·.number)).getD 0 =
      f ((lines.getLast?.map (·.number)).getD 0) := by
    rw [List.getLast?_map]
    cases lines.getLast? with
    | none => exact h0.symm
    | some line => rfl
  simp only [compileBody, compileSequence]
  rw [hlast, List.length_map, (compileNext_commutes h0 _ ctx).compileWithin]
  refine (renumber_bind fun body => ?_).symm
  rw [Statement.returnsAll_renumber, renumber_ite]
  rfl

end Compiled

end WorldScript
