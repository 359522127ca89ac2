import WorldScript.Proofs.Compile.WellPlaced

/-! # The lines of a statement

How many lines a statement takes follows from its tree: one line for a statement without blocks, and
for the others the lines of all their blocks with the lines that open, divide and end them. What the
compiler takes from the front of some lines for a statement is exactly that many lines, of which the
last is the one whose number it reports.

* `Statement.lineCount`: the number of lines of a statement.
* `Step.MadeOf`: the step was made of the lines in front of those that it leaves.
* `compileNext_madeOf`: this holds of all that is compiled. -/

namespace WorldScript

namespace Statement

mutual

/-- The number of lines of a statement. -/
def lineCount : Statement → Nat
  | forCount _ _ _ body => lineCounts body + 2
  | forEach _ _ _ _ body => lineCounts body + 2
  | whileLoop _ _ body => lineCounts body + 2
  | delay _ _ body => lineCounts body + 2
  | ifChain _ arms otherwise => sectionLines arms + lastLines otherwise + 1
  | switch _ _ cases otherwise => sectionLines cases + lastLines otherwise + 2
  | _ => 1

/-- The number of lines of a sequence. -/
def lineCounts : List Statement → Nat
  | [] => 0
  | s :: rest => lineCount s + lineCounts rest

/-- The number of lines of guarded sections, each with the line of its guard. -/
def sectionLines : List Section → Nat
  | [] => 0
  | .mk _ _ body :: rest => lineCounts body + 1 + sectionLines rest

/-- The number of lines of an `else` or a `default`, if there is one, with its own line. -/
def lastLines : Option (List Statement) → Nat
  | none => 0
  | some body => lineCounts body + 1

end

end Statement

open Statement (lineCount lineCounts sectionLines lastLines)

/-- The lines are those of the statement, up to the one whose number is reported, and then those
that are left. -/
def Step.MadeOf (step : Step) (lines : List Line) : Prop :=
  ∃ taken last, lines = taken ++ last :: step.remaining ∧
    taken.length + 1 = lineCount step.statement ∧ last.number = step.line

/-- What is compiled was made of the lines in front. -/
def Measured (next : Next) : Prop :=
  ∀ scope start step, next scope start = .ok step → step.MadeOf start

theorem Step.MadeOf.length_lt {step : Step} {lines : List Line} (h : step.MadeOf lines) :
    step.remaining.length < lines.length := by
  obtain ⟨taken, last, hlines, -, -⟩ := h
  have hlength := congrArg List.length hlines
  simp only [List.length_append, List.length_cons] at hlength
  omega

/-! ### Blocks -/

section Blocks

variable {next : Next} {scope : Scope} {start : List Line}

/-- The lines of a block are those of its statements. -/
theorem Measured.readWithin (hnext : Measured next) {isEnd : List Char → Bool}
    {unterminated : CompileError} {n : Nat} {block : Block}
    (h : Block.readWithin next isEnd unterminated n scope start = .ok block) :
    ∃ inside, start = inside ++ block.terminator :: block.remaining ∧
      inside.length = lineCounts block.statements := by
  induction n generalizing scope start block with
  | zero => cases start <;> simp [Block.readWithin] at h
  | succ n ih =>
    cases start with
    | nil => simp [Block.readWithin] at h
    | cons line rest =>
      simp only [Block.readWithin] at h
      split at h
      · cases h
        exact ⟨[], rfl, by simp [lineCounts]⟩
      · simp only [bind_eq_ok_iff, pure_eq_ok_iff] at h
        obtain ⟨step, hstep, more, hmore, rfl⟩ := h
        obtain ⟨taken, last, hlines, hcount, -⟩ := hnext _ _ _ hstep
        obtain ⟨inside, hrest, hinside⟩ := ih hmore
        refine ⟨taken ++ last :: inside, ?_, ?_⟩
        · rw [hlines, hrest]
          simp
        · simp only [List.length_append, List.length_cons, lineCounts]
          omega

theorem Measured.read (hnext : Measured next) {isEnd : List Char → Bool} {word : String}
    {opening : Nat} {block : Block}
    (h : Block.read next isEnd word opening scope start = .ok block) :
    ∃ inside, start = inside ++ block.terminator :: block.remaining ∧
      inside.length = lineCounts block.statements :=
  hnext.readWithin h

/-- What is left after a block is less than what was there. -/
theorem Measured.length_read_lt (hnext : Measured next) {isEnd : List Char → Bool} {word : String}
    {opening : Nat} {block : Block}
    (h : Block.read next isEnd word opening scope start = .ok block) :
    block.remaining.length < start.length := by
  obtain ⟨inside, hstart, -⟩ := hnext.read h
  have hlength := congrArg List.length hstart
  simp only [List.length_append, List.length_cons] at hlength
  omega

/-- The lines of a chain, without the line of its first condition. -/
theorem Measured.chain (hnext : Measured next) {ctx : Context} {opening n line : Nat}
    {test : Checked} {chain : Chain}
    (h : Chain.readWithin ctx next opening scope n line test start = .ok chain) :
    ∃ inside, start = inside ++ chain.terminator :: chain.remaining ∧
      inside.length + 1 = sectionLines chain.arms + lastLines chain.otherwise := by
  induction n generalizing line test start chain with
  | zero => exact absurd h failAt_ne_ok
  | succ n ih =>
    simp only [Chain.readWithin, bind_eq_ok_iff] at h
    obtain ⟨block, hblock, h⟩ := h
    obtain ⟨arm, hstart, harm⟩ := hnext.read hblock
    split at h
    · rw [pure_eq_ok_iff] at h
      subst h
      refine ⟨arm, hstart, ?_⟩
      simp only [sectionLines, lastLines]
      omega
    · split at h
      · -- the line that ends the arm is the guard of the next one
        simp only [bind_eq_ok_iff, pure_eq_ok_iff] at h
        obtain ⟨_, _, more, hmore, rfl⟩ := h
        obtain ⟨inside, hrest, hinside⟩ := ih hmore
        refine ⟨arm ++ block.terminator :: inside, ?_, ?_⟩
        · rw [hstart, hrest]
          simp
        · simp only [sectionLines, List.length_append, List.length_cons]
          omega
      · simp only [bind_eq_ok_iff] at h
        obtain ⟨last, hlast, h⟩ := h
        obtain ⟨inside, hrest, hinside⟩ := hnext.read hlast
        split at h
        · rw [pure_eq_ok_iff] at h
          subst h
          refine ⟨arm ++ block.terminator :: inside, ?_, ?_⟩
          · rw [hstart, hrest]
            simp
          · simp only [sectionLines, lastLines, List.length_append, List.length_cons]
            omega
        · exact absurd h failAt_ne_ok

/-- The lines of the sections of a switch. A section ends with the first line of the next one. -/
theorem Measured.cases (hnext : Measured next) {ctx : Context} {opening n : Nat} {type : Ty}
    {cases : Cases} (h : Cases.readWithin ctx next opening scope type n start = .ok cases) :
    ∃ inside, start = inside ++ cases.terminator :: cases.remaining ∧
      inside.length = sectionLines cases.cases + lastLines cases.otherwise := by
  induction n generalizing start cases with
  | zero => cases start <;> exact absurd h failAt_ne_ok
  | succ n ih =>
    cases start with
    | nil => exact absurd h failAt_ne_ok
    | cons line rest =>
      simp only [Cases.readWithin] at h
      split at h
      · rw [pure_eq_ok_iff] at h
        subst h
        exact ⟨[], rfl, by simp [sectionLines, lastLines]⟩
      · split at h
        · simp only [bind_eq_ok_iff, pure_eq_ok_iff] at h
          obtain ⟨_, _, block, hblock, more, hmore, rfl⟩ := h
          obtain ⟨body, hrest, hbody⟩ := hnext.read hblock
          obtain ⟨inside, hmoreLines, hinside⟩ := ih hmore
          refine ⟨line :: body ++ inside, ?_, ?_⟩
          · rw [hrest, hmoreLines]
            simp
          · simp only [sectionLines, List.length_append, List.length_cons]
            omega
        · split at h
          · simp only [bind_eq_ok_iff] at h
            obtain ⟨block, hblock, h⟩ := h
            obtain ⟨body, hrest, hbody⟩ := hnext.read hblock
            split at h
            · rw [pure_eq_ok_iff] at h
              subst h
              refine ⟨line :: body, by rw [hrest]; rfl, ?_⟩
              simp only [sectionLines, lastLines, List.length_cons]
              omega
            · exact absurd h failAt_ne_ok
          · exact absurd h failAt_ne_ok

end Blocks

/-! ### Statements of several lines -/

section Statements

variable {rest : List Line} {ctx : Context} {inner : Option Next} {scope : Scope} {line : Nat}
  {step : Step}

/-- A statement that is a line, a block and the end of the block. -/
theorem madeOf_ofBlock (head : Line) {next : Next} (hnext : Measured next)
    {isEnd : List Char → Bool} {word : String} {opening : Nat} {bodyScope : Scope} {block : Block}
    {make : List Statement → Statement} (hcount : ∀ b, lineCount (make b) = lineCounts b + 2)
    (h : Block.read next isEnd word opening bodyScope rest = .ok block) :
    (Step.ofBlock scope block make).MadeOf (head :: rest) := by
  obtain ⟨inside, hrest, hinside⟩ := hnext.read h
  refine ⟨head :: inside, block.terminator, by rw [hrest]; rfl, ?_, rfl⟩
  have hstatement : lineCount (Step.ofBlock scope block make).statement =
      lineCounts block.statements + 2 := hcount block.statements
  rw [hstatement, List.length_cons, hinside]

theorem forCount_madeOf (head : Line) (hinner : ∀ next, inner = some next → Measured next)
    {name count : List Char} (h : compileForCount ctx inner scope line rest name count = .ok step) :
    step.MadeOf (head :: rest) := by
  simp only [compileForCount, bind_eq_ok_iff, pure_eq_ok_iff] at h
  obtain ⟨_, _, next, hnext, test, _, block, hblock, rfl⟩ := h
  exact madeOf_ofBlock head (hinner next (nested_eq_ok hnext)) (fun b => by simp [lineCount]) hblock

theorem forEach_madeOf (head : Line) (hinner : ∀ next, inner = some next → Measured next)
    {name items : List Char} (h : compileForEach ctx inner scope line rest name items = .ok step) :
    step.MadeOf (head :: rest) := by
  simp only [compileForEach, bind_eq_ok_iff] at h
  obtain ⟨_, _, next, hnext, collection, _, h⟩ := h
  split at h
  · simp only [bind_eq_ok_iff, pure_eq_ok_iff] at h
    obtain ⟨element, _, block, hblock, rfl⟩ := h
    exact madeOf_ofBlock head (hinner next (nested_eq_ok hnext)) (fun b => by simp [lineCount])
      hblock
  · exact absurd h failAt_ne_ok

theorem while_madeOf (head : Line) (hinner : ∀ next, inner = some next → Measured next)
    {test : List Char} (h : compileWhile ctx inner scope line rest test = .ok step) :
    step.MadeOf (head :: rest) := by
  simp only [compileWhile, bind_eq_ok_iff, pure_eq_ok_iff] at h
  obtain ⟨next, hnext, _, _, block, hblock, rfl⟩ := h
  exact madeOf_ofBlock head (hinner next (nested_eq_ok hnext)) (fun b => by simp [lineCount]) hblock

theorem delay_madeOf (head : Line) (hinner : ∀ next, inner = some next → Measured next)
    {duration : List Char} (h : compileDelay ctx inner scope line rest duration = .ok step) :
    step.MadeOf (head :: rest) := by
  simp only [compileDelay, bind_eq_ok_iff, pure_eq_ok_iff] at h
  obtain ⟨next, hnext, _, _, block, hblock, rfl⟩ := h
  exact madeOf_ofBlock head (hinner next (nested_eq_ok hnext)) (fun b => by simp [lineCount]) hblock

theorem if_madeOf (head : Line) (hinner : ∀ next, inner = some next → Measured next)
    {test : List Char} (h : compileIf ctx inner scope line rest test = .ok step) :
    step.MadeOf (head :: rest) := by
  simp only [compileIf, bind_eq_ok_iff, pure_eq_ok_iff] at h
  obtain ⟨next, hnext, _, _, chain, hchain, rfl⟩ := h
  obtain ⟨inside, hrest, hinside⟩ := (hinner next (nested_eq_ok hnext)).chain hchain
  refine ⟨head :: inside, chain.terminator, by rw [hrest]; rfl, ?_, rfl⟩
  simp only [lineCount, List.length_cons]
  omega

theorem switch_madeOf (head : Line) (hinner : ∀ next, inner = some next → Measured next)
    {value : List Char} (h : compileSwitch ctx inner scope line rest value = .ok step) :
    step.MadeOf (head :: rest) := by
  simp only [compileSwitch, bind_eq_ok_iff, pure_eq_ok_iff] at h
  obtain ⟨next, hnext, _, _, cases, hcases, rfl⟩ := h
  obtain ⟨inside, hrest, hinside⟩ := (hinner next (nested_eq_ok hnext)).cases hcases
  refine ⟨head :: inside, cases.terminator, by rw [hrest]; rfl, ?_, rfl⟩
  simp only [lineCount, List.length_cons]
  omega

end Statements

/-! ### Statements of one line -/

section Leaves

variable {ctx : Context} {scope : Scope} {line : Nat} {s : Statement}

theorem declare_lineCount {name type : List Char} {initial : Option (List Char)} {t : Ty}
    (h : Leaf.declare ctx scope line name type initial = .ok (s, t)) : lineCount s = 1 := by
  simp only [Leaf.declare, bind_eq_ok_iff] at h
  obtain ⟨_, _, h⟩ := h
  split at h
  · exact absurd h failAt_ne_ok
  · split at h
    · exact absurd h failAt_ne_ok
    · split at h
      · cases h
        rfl
      · simp only [bind_eq_ok_iff, pure_eq_ok_iff, Prod.mk.injEq] at h
        obtain ⟨_, _, rfl, _⟩ := h
        rfl

theorem assign_lineCount {name value : List Char}
    (h : Leaf.assign ctx scope line name value = .ok s) : lineCount s = 1 := by
  simp only [Leaf.assign, bind_eq_ok_iff, pure_eq_ok_iff] at h
  obtain ⟨_, _, _, _, rfl⟩ := h
  rfl

theorem compound_lineCount {name value : List Char} {op : CompoundOp}
    (h : Leaf.compound ctx scope line name op value = .ok s) : lineCount s = 1 := by
  simp only [Leaf.compound, bind_eq_ok_iff] at h
  obtain ⟨_, _, _, _, h⟩ := h
  -- with and without an element type
  split at h
  all_goals
    simp only [bind_eq_ok_iff] at h
    obtain ⟨_, _, h⟩ := h
    split at h
    · exact absurd h failAt_ne_ok
    · exact absurd h failAt_ne_ok
    · cases h
      rfl

theorem breakOut_lineCount (h : Leaf.breakOut ctx line = .ok s) : lineCount s = 1 := by
  unfold Leaf.breakOut at h
  split at h
  · exact absurd h failAt_ne_ok
  · cases h
    rfl

theorem continueOn_lineCount (h : Leaf.continueOn ctx line = .ok s) : lineCount s = 1 := by
  unfold Leaf.continueOn at h
  split at h
  · exact absurd h failAt_ne_ok
  · cases h
    rfl

theorem returnWith_lineCount {value : Option (List Char)}
    (h : Leaf.returnWith ctx scope line value = .ok s) : lineCount s = 1 := by
  unfold Leaf.returnWith at h
  split at h
  · split at h
    · exact absurd h failAt_ne_ok
    · split at h
      · exact absurd h failAt_ne_ok
      · simp only [bind_eq_ok_iff, pure_eq_ok_iff] at h
        obtain ⟨_, _, rfl⟩ := h
        rfl
  · split at h
    · exact absurd h failAt_ne_ok
    · cases h
      rfl

theorem addItem_lineCount {name item : List Char} {key : Option (List Char)}
    (h : Leaf.addItem ctx scope line name key item = .ok s) : lineCount s = 1 := by
  cases key with
  | none =>
    simp only [Leaf.addItem, bind_eq_ok_iff, pure_eq_ok_iff] at h
    obtain ⟨_, _, _, _, _, _, rfl⟩ := h
    rfl
  | some key =>
    simp only [Leaf.addItem, bind_eq_ok_iff, pure_eq_ok_iff] at h
    obtain ⟨_, _, _, _, _, _, _, _, rfl⟩ := h
    rfl

theorem addRange_lineCount {name items : List Char}
    (h : Leaf.addRange ctx scope line name items = .ok s) : lineCount s = 1 := by
  simp only [Leaf.addRange, bind_eq_ok_iff, pure_eq_ok_iff] at h
  obtain ⟨_, _, _, _, rfl⟩ := h
  rfl

theorem removeItem_lineCount {name item : List Char}
    (h : Leaf.removeItem ctx scope line name item = .ok s) : lineCount s = 1 := by
  simp only [Leaf.removeItem, bind_eq_ok_iff, pure_eq_ok_iff] at h
  obtain ⟨_, _, _, _, _, _, rfl⟩ := h
  rfl

theorem removeAt_lineCount {name index : List Char}
    (h : Leaf.removeAt ctx scope line name index = .ok s) : lineCount s = 1 := by
  simp only [Leaf.removeAt, bind_eq_ok_iff, pure_eq_ok_iff] at h
  obtain ⟨_, _, _, _, rfl⟩ := h
  rfl

theorem clearItems_lineCount {name : List Char}
    (h : Leaf.clearItems scope line name = .ok s) : lineCount s = 1 := by
  simp only [Leaf.clearItems, bind_eq_ok_iff, pure_eq_ok_iff] at h
  obtain ⟨_, _, rfl⟩ := h
  rfl

theorem setItem_lineCount {name key item : List Char}
    (h : Leaf.setItem ctx scope line name key item = .ok s) : lineCount s = 1 := by
  simp only [Leaf.setItem, bind_eq_ok_iff, pure_eq_ok_iff] at h
  obtain ⟨_, _, _, _, _, _, _, _, rfl⟩ := h
  rfl

theorem removeKey_lineCount {name key : List Char}
    (h : Leaf.removeKey ctx scope line name key = .ok s) : lineCount s = 1 := by
  simp only [Leaf.removeKey, bind_eq_ok_iff, pure_eq_ok_iff] at h
  obtain ⟨_, _, _, _, rfl⟩ := h
  rfl

theorem call_lineCount {text : List Char}
    (h : Leaf.call ctx scope line text = .ok s) : lineCount s = 1 := by
  simp only [Leaf.call, bind_eq_ok_iff, pure_eq_ok_iff] at h
  obtain ⟨_, _, rfl⟩ := h
  rfl

end Leaves

/-! ### All statements -/

section Compiled

variable {ctx : Context} {inner : Context → Option Next} {scope : Scope} {line : Line}
  {rest : List Line} {step : Step}

theorem single_madeOf {c : Compile Statement} (hc : ∀ s, c = .ok s → lineCount s = 1)
    (h : Step.single scope line rest c = .ok step) : step.MadeOf (line :: rest) := by
  simp only [Step.single, bind_eq_ok_iff, pure_eq_ok_iff] at h
  obtain ⟨s, hs, rfl⟩ := h
  exact ⟨[], line, rfl, (hc s hs).symm, rfl⟩

theorem compileForm_madeOf (hinner : ∀ inside next, inner inside = some next → Measured next)
    {form : LineForm} (h : compileForm ctx inner scope line rest form = .ok step) :
    step.MadeOf (line :: rest) := by
  cases form with
  | declare name type initial =>
    simp only [compileForm, bind_eq_ok_iff, pure_eq_ok_iff] at h
    obtain ⟨⟨s, t⟩, hs, rfl⟩ := h
    exact ⟨[], line, rfl, (declare_lineCount hs).symm, rfl⟩
  | ifChain test => exact if_madeOf line (hinner _) h
  | forCount name count => exact forCount_madeOf line (hinner _) h
  | forEach name items => exact forEach_madeOf line (hinner _) h
  | whileLoop test => exact while_madeOf line (hinner _) h
  | switch value => exact switch_madeOf line (hinner _) h
  | delay duration => exact delay_madeOf line (hinner _) h
  | breakOut => exact single_madeOf (fun _ => breakOut_lineCount) h
  | continueOn => exact single_madeOf (fun _ => continueOn_lineCount) h
  | returnWith value => exact single_madeOf (fun _ => returnWith_lineCount) h
  | addItem name key item => exact single_madeOf (fun _ => addItem_lineCount) h
  | addRange name items => exact single_madeOf (fun _ => addRange_lineCount) h
  | removeItem name item => exact single_madeOf (fun _ => removeItem_lineCount) h
  | removeAt name index => exact single_madeOf (fun _ => removeAt_lineCount) h
  | clearItems name => exact single_madeOf (fun _ => clearItems_lineCount) h
  | setItem name key item => exact single_madeOf (fun _ => setItem_lineCount) h
  | removeKey name key => exact single_madeOf (fun _ => removeKey_lineCount) h
  | separator => exact absurd h failAt_ne_ok
  | compound name op value => exact single_madeOf (fun _ => compound_lineCount) h
  | assign name value => exact single_madeOf (fun _ => assign_lineCount) h
  | call => exact single_madeOf (fun _ => call_lineCount) h

theorem compileLine_madeOf (hinner : ∀ inside next, inner inside = some next → Measured next) :
    Measured (compileLine ctx inner) := by
  intro scope start step h
  cases start with
  | nil => exact absurd h failAt_ne_ok
  | cons line rest =>
    simp only [compileLine] at h
    split at h
    · exact absurd h failAt_ne_ok
    · exact compileForm_madeOf hinner h

/-- What is compiled was made of the lines in front, as many as its tree takes. -/
theorem compileNext_madeOf (budget : Nat) (ctx : Context) : Measured (compileNext budget ctx) := by
  induction budget generalizing ctx with
  | zero => exact compileLine_madeOf fun _ _ h => by cases h
  | succ budget ih =>
    refine compileLine_madeOf ?_
    rintro inside next ⟨⟩
    exact ih inside

end Compiled

end WorldScript
