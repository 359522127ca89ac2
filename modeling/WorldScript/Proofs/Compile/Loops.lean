import WorldScript.Library.Standard
import WorldScript.Proofs.Compile.Extent

/-! # The loops of the compiler

The compiler goes through lines in loops: one over the statements of a source, one over those of a
block, one over the arms of an `if` and one over the sections of a `switch`. Here each loop is given
by a single *pass*, with no bound on the number of passes. Since every pass takes lines away, all of
them come to an end, and with the very results of the functions that count their passes.

* `Pass.Ends`: a loop comes to an end with a result.
* `Pass.ends_of_size`: a loop whose passes make something smaller does.
* `compileNext_takes_lines`: what the compiler takes of the lines, and that it comes to an end. -/

namespace WorldScript

open Statement (lineCount)

/-- One pass of a loop: it was the last one, or the loop goes on in another state, and something is
done to its result in the end. -/
inductive Pass (σ β : Type)
  | last (result : β)
  | more (state : σ) (finish : β → β)

namespace Pass

variable {σ β : Type}

/-- A loop comes to an end. There is no bound on its passes other than that there is an end to
them. -/
inductive Ends (pass : σ → Compile (Pass σ β)) : σ → Compile β → Prop
  | fails {s : σ} {e : CompileError} : pass s = .error e → Ends pass s (.error e)
  | last {s : σ} {b : β} : pass s = .ok (.last b) → Ends pass s (.ok b)
  | more {s s' : σ} {finish : β → β} {r : Compile β} :
    pass s = .ok (.more s' finish) → Ends pass s' r → Ends pass s (r.map finish)

/-- The result of a loop after a pass, where `rest` does the passes after it. -/
def complete (rest : σ → Compile β) : Pass σ β → Compile β
  | last b => .ok b
  | more s finish => (rest s).map finish

/-- A loop with a bound on its passes comes to an end before the bound, if every pass makes the
state smaller and the bound is at least as large as the state. -/
theorem ends_of_size {pass : σ → Compile (Pass σ β)} (bounded : Nat → σ → Compile β)
    (size : σ → Nat) (hstep : ∀ n s, bounded (n + 1) s = pass s >>= complete (bounded n))
    (hzero : ∀ s, size s = 0 → Ends pass s (bounded 0 s))
    (hless : ∀ s s' finish, pass s = .ok (.more s' finish) → size s' < size s) {n : Nat} {s : σ}
    (hn : size s ≤ n) : Ends pass s (bounded n s) := by
  induction n generalizing s with
  | zero => exact hzero s (by omega)
  | succ n ih =>
    rw [hstep]
    cases hpass : pass s with
    | error e => exact .fails hpass
    | ok p =>
      cases p with
      | last b => exact .last hpass
      | more s' finish =>
        have hsmaller := hless s s' finish hpass
        exact .more hpass (ih (by omega))

end Pass

/-! ### Single passes -/

/-- A pass over the lines of a source: a statement, if there is a line. -/
def sequencePass (next : Next) : Scope × List Line →
    Compile (Pass (Scope × List Line) (List Statement))
  | (_, []) => .ok (.last [])
  | (scope, line :: rest) => do
    let step ← next scope (line :: rest)
    return .more (step.scope, step.remaining) (step.statement :: ·)

/-- A pass over the lines of a block: a statement, unless the line ends the block. -/
def Block.pass (next : Next) (isEnd : List Char → Bool) (unterminated : CompileError) :
    Scope × List Line → Compile (Pass (Scope × List Line) Block)
  | (_, []) => .error unterminated
  | (scope, line :: rest) =>
    if isEnd line.text.toList then .ok (.last ⟨[], line, rest⟩)
    else do
      let step ← next scope (line :: rest)
      return .more (step.scope, step.remaining) fun block =>
        { block with statements := step.statement :: block.statements }

/-- A pass over the arms of an `if`: an arm, the line and condition of which are known, and the
`else` if it follows. -/
def Chain.pass (ctx : Context) (next : Next) (opening : Nat) (scope : Scope) :
    Nat × Checked × List Line → Compile (Pass (Nat × Checked × List Line) Chain)
  | (line, test, lines) => do
    let block ← Block.read next LineForm.isArmEnd "if" opening scope lines
    let arm : Section := .mk line test block.statements
    let text := block.terminator.text.toList
    if LineForm.isEnd "if" text then
      return .last ⟨[arm], none, block.terminator, block.remaining⟩
    else
      match LineForm.elseIf? text with
      | some test =>
        let line := block.terminator.number
        let test ← ctx.typed scope line .condition .boolean test
        return .more (line, test, block.remaining) fun chain =>
          { chain with arms := arm :: chain.arms }
      | none =>
        let last ← Block.read next LineForm.isArmEnd "if" opening scope block.remaining
        if LineForm.isEnd "if" last.terminator.text.toList then
          return .last ⟨[arm], some last.statements, last.terminator, last.remaining⟩
        else failAt last.terminator.number (.afterElse last.terminator.text)

/-- A pass over the sections of a `switch`: a section, unless the line ends the switch. -/
def Cases.pass (ctx : Context) (next : Next) (opening : Nat) (scope : Scope) (switchType : Ty) :
    List Line → Compile (Pass (List Line) Cases)
  | [] => failAt opening (.unterminated "switch")
  | line :: rest => do
    let text := line.text.toList
    if LineForm.isEnd "switch" text then return .last ⟨[], none, line, rest⟩
    else
      match LineForm.case? text with
      | some value =>
        let value ← caseValue ctx scope line.number switchType value
        let block ← Block.read next LineForm.isSectionEnd "switch" opening scope rest
        return .more (block.terminator :: block.remaining) fun more =>
          { more with cases := .mk line.number value block.statements :: more.cases }
      | none =>
        if Text.isKeyword "default" text then
          let block ← Block.read next LineForm.isSectionEnd "switch" opening scope rest
          if LineForm.isEnd "switch" block.terminator.text.toList then
            return .last ⟨[], some block.statements, block.terminator, block.remaining⟩
          else failAt block.terminator.number .defaultNotLast
        else failAt line.number .expectedSection

/-! ### Bounded loops are made of passes -/

section Steps

theorem ok_bind {ε α β : Type} (a : α) (f : α → Except ε β) : (Except.ok a >>= f) = f a := rfl

theorem compileWithin_succ (next : Next) (n : Nat) (s : Scope × List Line) :
    compileWithin next (n + 1) s.1 s.2 =
      sequencePass next s >>= Pass.complete fun s => compileWithin next n s.1 s.2 := by
  obtain ⟨scope, lines⟩ := s
  cases lines with
  | nil => rfl
  | cons line rest =>
    simp only [compileWithin, sequencePass]
    cases next scope (line :: rest) with
    | error e => rfl
    | ok step => rfl

theorem Block.readWithin_succ (next : Next) (isEnd : List Char → Bool)
    (unterminated : CompileError) (n : Nat) (s : Scope × List Line) :
    Block.readWithin next isEnd unterminated (n + 1) s.1 s.2 =
      Block.pass next isEnd unterminated s >>=
        Pass.complete fun s => Block.readWithin next isEnd unterminated n s.1 s.2 := by
  obtain ⟨scope, lines⟩ := s
  cases lines with
  | nil => rfl
  | cons line rest =>
    simp only [readWithin, pass]
    by_cases hend : isEnd line.text.toList = true
    · rw [if_pos hend, if_pos hend]
      rfl
    · rw [if_neg hend, if_neg hend]
      cases next scope (line :: rest) with
      | error e => rfl
      | ok step => rfl

theorem Chain.readWithin_succ (ctx : Context) (next : Next) (opening : Nat) (scope : Scope)
    (n : Nat) (s : Nat × Checked × List Line) :
    Chain.readWithin ctx next opening scope (n + 1) s.1 s.2.1 s.2.2 =
      Chain.pass ctx next opening scope s >>=
        Pass.complete fun s => Chain.readWithin ctx next opening scope n s.1 s.2.1 s.2.2 := by
  obtain ⟨line, test, lines⟩ := s
  simp only [readWithin, pass]
  cases Block.read next LineForm.isArmEnd "if" opening scope lines with
  | error e => rfl
  | ok block =>
    simp only [ok_bind]
    by_cases hend : LineForm.isEnd "if" block.terminator.text.toList = true
    · rw [if_pos hend, if_pos hend]
      rfl
    · rw [if_neg hend, if_neg hend]
      cases LineForm.elseIf? block.terminator.text.toList with
      | some text =>
        simp only
        cases ctx.typed scope block.terminator.number .condition .boolean text with
        | error e => rfl
        | ok guard => rfl
      | none =>
        simp only
        cases Block.read next LineForm.isArmEnd "if" opening scope block.remaining with
        | error e => rfl
        | ok last =>
          simp only [ok_bind]
          by_cases hlast : LineForm.isEnd "if" last.terminator.text.toList = true
          · rw [if_pos hlast, if_pos hlast]
            rfl
          · rw [if_neg hlast, if_neg hlast]
            rfl

theorem Cases.readWithin_succ (ctx : Context) (next : Next) (opening : Nat) (scope : Scope)
    (switchType : Ty) (n : Nat) (lines : List Line) :
    Cases.readWithin ctx next opening scope switchType (n + 1) lines =
      Cases.pass ctx next opening scope switchType lines >>=
        Pass.complete (Cases.readWithin ctx next opening scope switchType n) := by
  cases lines with
  | nil => rfl
  | cons line rest =>
    simp only [readWithin, pass]
    by_cases hend : LineForm.isEnd "switch" line.text.toList = true
    · rw [if_pos hend, if_pos hend]
      rfl
    · rw [if_neg hend, if_neg hend]
      cases LineForm.case? line.text.toList with
      | some text =>
        simp only
        cases caseValue ctx scope line.number switchType text with
        | error e => rfl
        | ok value =>
          simp only [ok_bind]
          cases Block.read next LineForm.isSectionEnd "switch" opening scope rest with
          | error e => rfl
          | ok block => rfl
      | none =>
        simp only
        by_cases hdefault : Text.isKeyword "default" line.text.toList = true
        · rw [if_pos hdefault, if_pos hdefault]
          cases Block.read next LineForm.isSectionEnd "switch" opening scope rest with
          | error e => rfl
          | ok block =>
            simp only [ok_bind]
            by_cases hlast : LineForm.isEnd "switch" block.terminator.text.toList = true
            · rw [if_pos hlast, if_pos hlast]
              rfl
            · rw [if_neg hlast, if_neg hlast]
              rfl
        · rw [if_neg hdefault, if_neg hdefault]
          rfl

end Steps

/-! ### Every pass takes lines away -/

section Smaller

variable {next : Next}

theorem Measured.sequencePass_less (hnext : Measured next) {s s' : Scope × List Line}
    {finish : List Statement → List Statement} (h : sequencePass next s = .ok (.more s' finish)) :
    s'.2.length < s.2.length := by
  obtain ⟨scope, lines⟩ := s
  cases lines with
  | nil => cases h
  | cons line rest =>
    simp only [sequencePass, bind_eq_ok_iff, pure_eq_ok_iff] at h
    obtain ⟨step, hstep, hmore⟩ := h
    cases hmore
    exact (hnext _ _ _ hstep).length_lt

theorem Measured.blockPass_less (hnext : Measured next) {isEnd : List Char → Bool}
    {unterminated : CompileError} {s s' : Scope × List Line} {finish : Block → Block}
    (h : Block.pass next isEnd unterminated s = .ok (.more s' finish)) :
    s'.2.length < s.2.length := by
  obtain ⟨scope, lines⟩ := s
  cases lines with
  | nil => cases h
  | cons line rest =>
    simp only [Block.pass] at h
    split at h
    · cases h
    · simp only [bind_eq_ok_iff, pure_eq_ok_iff] at h
      obtain ⟨step, hstep, hmore⟩ := h
      cases hmore
      exact (hnext _ _ _ hstep).length_lt

theorem Measured.chainPass_less (hnext : Measured next) {ctx : Context} {opening : Nat}
    {scope : Scope} {s s' : Nat × Checked × List Line} {finish : Chain → Chain}
    (h : Chain.pass ctx next opening scope s = .ok (.more s' finish)) :
    s'.2.2.length < s.2.2.length := by
  simp only [Chain.pass, bind_eq_ok_iff] at h
  obtain ⟨block, hblock, h⟩ := h
  split at h
  · cases h
  · split at h
    · simp only [bind_eq_ok_iff, pure_eq_ok_iff] at h
      obtain ⟨_, _, hmore⟩ := h
      cases hmore
      exact hnext.length_read_lt hblock
    · simp only [bind_eq_ok_iff] at h
      obtain ⟨last, _, h⟩ := h
      split at h
      · cases h
      · exact absurd h failAt_ne_ok

theorem Measured.casesPass_less (hnext : Measured next) {ctx : Context} {opening : Nat}
    {scope : Scope} {type : Ty} {lines lines' : List Line} {finish : Cases → Cases}
    (h : Cases.pass ctx next opening scope type lines = .ok (.more lines' finish)) :
    lines'.length < lines.length := by
  cases lines with
  | nil => exact absurd h failAt_ne_ok
  | cons line rest =>
    simp only [Cases.pass] at h
    split at h
    · cases h
    · split at h
      · simp only [bind_eq_ok_iff, pure_eq_ok_iff] at h
        obtain ⟨_, _, block, hblock, hmore⟩ := h
        cases hmore
        -- the line that ends the section is read once more, the first one is not
        have hrest := hnext.length_read_lt hblock
        simp only [List.length_cons]
        omega
      · split at h
        · simp only [bind_eq_ok_iff] at h
          obtain ⟨block, _, h⟩ := h
          split at h
          · cases h
          · exact absurd h failAt_ne_ok
        · exact absurd h failAt_ne_ok

end Smaller

/-! ### All loops end -/

/-- The loops that ask `next` for statements come to an end, with the results of the functions that
count their passes. -/
structure LoopsEnd (ctx : Context) (next : Next) : Prop where
  sequences (scope : Scope) (lines : List Line) :
    Pass.Ends (sequencePass next) (scope, lines) (compileWithin next lines.length scope lines)
  blocks (isEnd : List Char → Bool) (word : String) (opening : Nat) (scope : Scope)
    (lines : List Line) :
    Pass.Ends (Block.pass next isEnd ⟨opening, .unterminated word⟩) (scope, lines)
      (Block.read next isEnd word opening scope lines)
  chains (opening : Nat) (scope : Scope) (test : Checked) (lines : List Line) :
    Pass.Ends (Chain.pass ctx next opening scope) (opening, test, lines)
      (Chain.read ctx next opening scope test lines)
  cases (opening : Nat) (scope : Scope) (type : Ty) (lines : List Line) :
    Pass.Ends (Cases.pass ctx next opening scope type) lines
      (Cases.read ctx next opening scope type lines)

theorem Measured.loopsEnd {next : Next} (hnext : Measured next) (ctx : Context) :
    LoopsEnd ctx next where
  sequences scope lines := by
    refine Pass.ends_of_size (fun n (s : Scope × List Line) => compileWithin next n s.1 s.2)
      (fun s => s.2.length) (compileWithin_succ next) ?_ (fun _ _ _ h => hnext.sequencePass_less h)
      (Nat.le_refl _)
    rintro ⟨scope, lines⟩ hsize
    have hnil : lines = [] := List.length_eq_zero_iff.mp hsize
    subst hnil
    exact .last rfl
  blocks isEnd word opening scope lines := by
    refine Pass.ends_of_size
      (fun n (s : Scope × List Line) =>
        Block.readWithin next isEnd ⟨opening, .unterminated word⟩ n s.1 s.2)
      (fun s => s.2.length + 1) (Block.readWithin_succ next isEnd _) ?_ ?_ (Nat.le_refl _)
    · intro s hsize
      omega
    · intro s s' finish h
      have hless := hnext.blockPass_less h
      omega
  chains opening scope test lines := by
    refine Pass.ends_of_size
      (fun n (s : Nat × Checked × List Line) =>
        Chain.readWithin ctx next opening scope n s.1 s.2.1 s.2.2)
      (fun s => s.2.2.length + 1) (Chain.readWithin_succ ctx next opening scope) ?_ ?_
      (Nat.le_refl _)
    · intro s hsize
      omega
    · intro s s' finish h
      have hless := hnext.chainPass_less h
      omega
  cases opening scope type lines := by
    refine Pass.ends_of_size (Cases.readWithin ctx next opening scope type)
      (fun lines => lines.length + 1) (Cases.readWithin_succ ctx next opening scope type)
      ?_ ?_ (Nat.le_refl _)
    · intro s hsize
      omega
    · intro s s' finish h
      have hless := hnext.casesPass_less h
      omega

/-! ### What the compiler takes of the lines -/

/-- After a declaration there is one more name, which was not there before. After all other
statements the scope is what it was. -/
def Step.AddsDeclared (scope : Scope) (step : Step) : Prop :=
  match step.statement with
  | .declare _ name type _ => scope.declares name = false ∧ step.scope = scope.add name type
  | _ => step.scope = scope

theorem compileNext_addsDeclared {budget : Nat} {ctx : Context} {scope : Scope}
    {lines : List Line} {step : Step} (h : compileNext budget ctx scope lines = .ok step) :
    step.AddsDeclared scope := by
  obtain ⟨-, hscope, -⟩ :=
    compileNext_faithful lines budget ctx scope lines step (List.suffix_refl lines) h
  have hplaced := compileNext_wellPlaced h
  obtain ⟨s, remaining, after, last⟩ := step
  cases s with
  | declare line name type initial =>
    refine ⟨?_, hscope⟩
    rw [Scope.declares, hplaced.1.fresh]
    rfl
  | _ => exact hscope

/-- **Every line is compiled once.** A compiled statement was made of the lines in front, as many of
them as its tree takes, the last of which has the number that it reports. It adds to the scope what
it declares and nothing else. No loop of the compiler goes on for ever: not the one over a whole
source, and not those over blocks, arms and sections in it. -/
theorem compileNext_takes_lines :
    (∀ {budget : Nat} {ctx : Context} {scope : Scope} {lines : List Line} {step : Step},
      compileNext budget ctx scope lines = .ok step →
      (∃ taken, taken ≠ [] ∧ lines = taken ++ step.remaining ∧
        taken.length = lineCount step.statement ∧
        taken.getLast?.map Line.number = some step.line) ∧
      step.AddsDeclared scope) ∧
    (∀ ctx scope lines, Pass.Ends (sequencePass (compileNext ctx.settings.maxNesting ctx))
      (scope, lines) (compileSequence ctx scope lines)) ∧
    ∀ budget outer inside, LoopsEnd outer (compileNext budget inside) := by
  refine ⟨?_, ?_, ?_⟩
  · intro budget ctx scope lines step h
    refine ⟨?_, compileNext_addsDeclared h⟩
    obtain ⟨taken, last, hlines, hcount, hlast⟩ := compileNext_madeOf budget ctx scope lines step h
    refine ⟨taken ++ [last], by simp, by simp [hlines], by simpa using hcount, ?_⟩
    rw [List.getLast?_concat, Option.map_some, hlast]
  · intro ctx scope lines
    exact ((compileNext_madeOf ctx.settings.maxNesting ctx).loopsEnd ctx).sequences scope lines
  · intro budget outer inside
    exact (compileNext_madeOf budget inside).loopsEnd outer

/-- An `if` with three branches, of which two hold a loop and a switch, and a line after it. -/
def Source.branches : List Line :=
  Source.lines ("if (1 < 2)\nfor (i : 3)\nvar x as number\nend for\nelseif (true)\n" ++
    "switch (1)\ncase (2)\nbreak\ndefault\nend switch\nelse\n\n// none\nend if\nvar y as text")

/-- The number of lines of a statement, the number of its last line, and the lines after it. -/
def Step.extent? (c : Compile Step) : Option (Nat × Nat × List Line) :=
  match c with
  | .ok step => some (lineCount step.statement, step.line, step.remaining)
  | .error _ => none

theorem Step.extent?_eq_some {c : Compile Step} {n line : Nat} {rest : List Line}
    (h : extent? c = some (n, line, rest)) :
    ∃ step, c = .ok step ∧ lineCount step.statement = n ∧ step.line = line ∧
      step.remaining = rest := by
  unfold extent? at h
  split at h
  · cases h
    exact ⟨_, rfl, rfl, rfl, rfl⟩
  · cases h

theorem compileNext_takes_lines_branches : ∃ step taken,
    compileNext 2 { library := .standard, settings := {}, returns := .void } .empty
      Source.branches = .ok step ∧
    Source.branches = taken ++ [⟨15, "var y as text"⟩] ∧ taken.length = 12 ∧
    lineCount step.statement = 12 ∧ taken.getLast?.map Line.number = some 14 ∧
    step.AddsDeclared .empty := by
  have hextent : Step.extent? (compileNext 2
      { library := .standard, settings := {}, returns := .void } .empty Source.branches) =
      some (12, 14, [⟨15, "var y as text"⟩]) := by
    decide +kernel
  obtain ⟨step, h, hcount, hline, hrest⟩ := Step.extent?_eq_some hextent
  obtain ⟨⟨taken, -, hlines, hlength, hlast⟩, hscope⟩ := compileNext_takes_lines.1 h
  rw [hrest] at hlines
  rw [hcount] at hlength
  rw [hline] at hlast
  exact ⟨step, taken, h, hlines, hlength, hcount, hlast, hscope⟩

end WorldScript
