import WorldScript.Proofs.Compile.Blame
import WorldScript.Proofs.Program.Layout

/-! # The lines of errors

Whatever is wrong with a source is found on one of its significant lines, and that line is blamed:
the line itself for what is wrong with it, the line that opened a block for one that has no end, and
the last line if the program does not return. Line `0` stands for what has no line: the parameters,
or a source without significant lines. The compiler never asks for a statement where there are no
lines left.

* `Among numbers r`: a failure of `r` is on a line with one of the numbers.
* `Locates next`: this holds of a statement and the lines it is compiled from.
* `compileNext_locates`: the compiler is of this sort.
* `Definition.RejectsParameter`: which parameters are rejected.
* `Definition.compile_error_line`: the lines of errors. -/

namespace WorldScript

/-- A failure is blamed on one of the lines, and is not that a statement was asked for after the
last line. -/
def Among {α : Type} (numbers : List Nat) (r : Compile α) : Prop :=
  ∀ e, r = .error e → e.line ∈ numbers ∧ e.fault ≠ .endOfSource

namespace Among

variable {α β : Type} {numbers : List Nat}

theorem ok (a : α) : Among numbers (.ok a) := by
  rintro e ⟨⟩

theorem pure (a : α) : Among numbers (Pure.pure a : Compile α) := ok a

theorem bind {x : Compile α} {k : α → Compile β} (hx : Among numbers x)
    (hk : ∀ a, x = .ok a → Among numbers (k a)) : Among numbers (x >>= k) := by
  intro e h
  rcases bind_eq_error_iff.mp h with h | ⟨a, ha, h⟩
  · exact hx e h
  · exact hk a ha e h

theorem of_onLine {n : Nat} (hn : n ∈ numbers) {r : Compile α} (hr : OnLine n r) :
    Among numbers r := by
  intro e h
  obtain ⟨hline, hlacks⟩ := hr e h
  refine ⟨hline ▸ hn, fun hfault => ?_⟩
  rw [hfault] at hlacks
  cases hlacks

theorem unterminated {n : Nat} (hn : n ∈ numbers) (word : String) :
    Among numbers (failAt n (.unterminated word) : Compile α) := by
  rintro e ⟨⟩
  exact ⟨hn, by simp⟩

end Among

/-! ### Blocks -/

/-- The number of each of the lines is among the numbers. -/
def Numbered (numbers : List Nat) (lines : List Line) : Prop := ∀ l ∈ lines, l.number ∈ numbers

namespace Numbered

variable {numbers : List Nat} {line : Line} {lines : List Line} {next : Next} {scope : Scope}

theorem head (h : Numbered numbers (line :: lines)) : line.number ∈ numbers :=
  h line List.mem_cons_self

theorem tail (h : Numbered numbers (line :: lines)) : Numbered numbers lines :=
  fun l hl => h l (List.mem_cons_of_mem _ hl)

/-- What a statement leaves is numbered as what it was compiled from. -/
theorem of_step (h : Numbered numbers lines) {step : Step} (hstep : step.MadeOf lines) :
    Numbered numbers step.remaining := by
  obtain ⟨taken, last, rfl, -, -⟩ := hstep
  exact fun l hl => h l (List.mem_append_right _ (List.mem_cons_of_mem _ hl))

/-- So is the line that ends a block, and what the block leaves. -/
theorem of_read (h : Numbered numbers lines) (hnext : Measured next) {isEnd : List Char → Bool}
    {word : String} {opening : Nat} {block : Block}
    (hread : Block.read next isEnd word opening scope lines = .ok block) :
    Numbered numbers (block.terminator :: block.remaining) := by
  obtain ⟨inside, rfl, -⟩ := hnext.read hread
  exact fun l hl => h l (List.mem_append_right _ hl)

end Numbered

/-- What is wrong with a statement is blamed on one of the lines from its first on. -/
def Locates (next : Next) : Prop :=
  ∀ numbers scope line rest, Numbered numbers (line :: rest) →
    Among numbers (next scope (line :: rest))

section Blocks

variable {next : Next} (hnext : Locates next) (hmeasured : Measured next) {numbers : List Nat}
  {opening : Nat} (hopening : opening ∈ numbers) {scope : Scope}

include hnext hmeasured hopening

theorem Locates.readWithin (isEnd : List Char → Bool) (word : String) (n : Nat) {lines : List Line}
    (hlines : Numbered numbers lines) :
    Among numbers (Block.readWithin next isEnd ⟨opening, .unterminated word⟩ n scope lines) := by
  induction n generalizing scope lines with
  | zero => cases lines <;> exact .unterminated hopening word
  | succ n ih =>
    cases lines with
    | nil => exact .unterminated hopening word
    | cons line rest =>
      simp only [Block.readWithin]
      split
      · exact .ok _
      · refine .bind (hnext numbers scope line rest hlines) fun step hstep => ?_
        exact .bind (ih (hlines.of_step (hmeasured _ _ _ hstep))) fun _ _ => .pure _

theorem Locates.read (isEnd : List Char → Bool) (word : String) {lines : List Line}
    (hlines : Numbered numbers lines) :
    Among numbers (Block.read next isEnd word opening scope lines) :=
  hnext.readWithin hmeasured hopening isEnd word _ hlines

theorem Locates.chain {ctx : Context} (n line : Nat) (test : Checked) {lines : List Line}
    (hlines : Numbered numbers lines) :
    Among numbers (Chain.readWithin ctx next opening scope n line test lines) := by
  induction n generalizing line test lines with
  | zero => exact .unterminated hopening "if"
  | succ n ih =>
    rw [Chain.readWithin_cons]
    refine .bind (hnext.read hmeasured hopening _ _ hlines) fun block hblock => ?_
    have hrest := hlines.of_read hmeasured hblock
    refine .bind (.of_onLine hrest.head (Divider.ofArm_onLine ctx scope _)) fun divider _ => ?_
    cases divider with
    | finish => exact .pure _
    | guard test => exact .bind (ih _ test hrest.tail) fun _ _ => .pure _
    | last =>
      refine .bind (hnext.read hmeasured hopening _ _ hrest.tail) fun last hlast => ?_
      have hend := hrest.tail.of_read hmeasured hlast
      refine .bind (.of_onLine hend.head ?_) fun _ _ => .pure _
      exact checkEnd_onLine "if" (.afterElse _) rfl _

theorem Locates.cases {ctx : Context} {type : Ty} (n : Nat) {lines : List Line}
    (hlines : Numbered numbers lines) :
    Among numbers (Cases.readWithin ctx next opening scope type n lines) := by
  induction n generalizing lines with
  | zero => cases lines <;> exact .unterminated hopening "switch"
  | succ n ih =>
    cases lines with
    | nil => exact .unterminated hopening "switch"
    | cons line rest =>
      rw [Cases.readWithin_cons]
      refine .bind (.of_onLine hlines.head (Divider.ofSection_onLine ctx scope type line)) ?_
      intro divider _
      cases divider with
      | finish => exact .pure _
      | guard value =>
        refine .bind (hnext.read hmeasured hopening _ _ hlines.tail) fun block hblock => ?_
        exact .bind (ih (hlines.tail.of_read hmeasured hblock)) fun _ _ => .pure _
      | last =>
        refine .bind (hnext.read hmeasured hopening _ _ hlines.tail) fun block hblock => ?_
        have hend := hlines.tail.of_read hmeasured hblock
        refine .bind (.of_onLine hend.head ?_) fun _ _ => .pure _
        exact checkEnd_onLine "switch" .defaultNotLast rfl _

end Blocks

/-! ### Statements -/

theorem Locates.head {next : Context → Next} (hnext : ∀ inside, Locates (next inside))
    (hmeasured : ∀ inside, Measured (next inside)) {ctx : Context} {scope : Scope}
    {numbers : List Nat} {line : Line} {rest : List Line} (h : Numbered numbers (line :: rest))
    (head : Head) : Among numbers (head.read ctx next scope line rest) := by
  cases head with
  | leaf statement after => exact .ok _
  | block word inside bodyScope make =>
    refine .bind ?_ fun _ _ => .pure _
    exact (hnext inside).read (hmeasured inside) h.head _ word h.tail
  | arms test =>
    refine .bind ?_ fun _ _ => .pure _
    exact (hnext ctx).chain (hmeasured ctx) h.head _ _ test h.tail
  | sections value =>
    refine .bind ?_ fun _ _ => .pure _
    exact (hnext ctx.switching).cases (hmeasured ctx.switching) h.head _ h.tail

/-- **The compiler blames one of the lines it was given.** By induction on the budget, of which the
statements of a block have less. -/
theorem compileNext_locates (budget : Nat) (ctx : Context) : Locates (compileNext budget ctx) := by
  induction budget using Nat.strongRecOn generalizing ctx with
  | ind budget ih =>
    intro numbers scope line rest h
    rw [compileNext_cons]
    refine .bind (.of_onLine h.head (Head.ofLine_onLine ctx _ scope line)) fun head hhead => ?_
    rcases Nat.eq_zero_or_pos budget with rfl | hpos
    · -- without a budget the line is the whole statement
      obtain ⟨s, after, rfl⟩ := Head.eq_leaf_of_ofLine hhead
      exact .ok _
    · exact Locates.head (fun inside => ih (budget - 1) (by omega) inside)
        (compileNext_madeOf (budget - 1)) h head

theorem compileWithin_among {next : Next} (hnext : Locates next) (hmeasured : Measured next)
    {numbers : List Nat} {n : Nat} {scope : Scope} {lines : List Line} (hn : lines.length ≤ n)
    (h : Numbered numbers lines) : Among numbers (compileWithin next n scope lines) := by
  induction n generalizing scope lines with
  | zero =>
    obtain rfl := List.length_eq_zero_iff.mp (Nat.le_zero.mp hn)
    exact .ok _
  | succ n ih =>
    cases lines with
    | nil => exact .ok _
    | cons line rest =>
      simp only [compileWithin]
      refine .bind (hnext numbers scope line rest h) fun step hstep => ?_
      have hmade := hmeasured _ _ _ hstep
      have hlength := hmade.length_lt
      exact .bind (ih (by omega) (h.of_step hmade)) fun _ _ => .pure _

/-- What is wrong with the statements of a program is blamed on one of its lines. -/
theorem compileBody_among (ctx : Context) (scope : Scope) {lines : List Line} (h : lines ≠ []) :
    Among (lines.map (·.number)) (compileBody ctx scope lines) := by
  refine .bind ?_ fun statements _ => ?_
  · exact compileWithin_among (compileNext_locates _ ctx) (compileNext_madeOf _ ctx) (Nat.le_refl _)
      fun l hl => List.mem_map_of_mem hl
  · split
    · -- the last line is to blame
      rintro e ⟨⟩
      refine ⟨?_, by simp⟩
      rw [List.getLast?_eq_some_getLast h]
      exact List.mem_map_of_mem (List.getLast_mem h)
    · exact .pure _

/-! ### Parameters -/

/-- A scope with some names added to it. -/
def Scope.addAll (scope : Scope) (names : List (String × Ty)) : Scope :=
  names.foldl (fun s p => s.add p.1 p.2) scope

theorem Scope.declares_add {scope : Scope} {name other : String} {type : Ty} :
    (scope.add name type).declares other = true ↔
      Text.lower name = Text.lower other ∨ scope.declares other = true := by
  by_cases h : Text.lower name = Text.lower other
  · have hself : (scope.add name type).lookup other = some type := by
      rw [lookup, ← h]
      exact scope.lookup_add_self name type
    simp [declares, hself, h]
  · simp [declares, scope.lookup_add_of_ne type (Ne.symm h), h]

theorem Scope.declares_addAll {scope : Scope} {names : List (String × Ty)} {name : String} :
    (scope.addAll names).declares name = true ↔
      scope.declares name = true ∨ ∃ p ∈ names, Text.lower p.1 = Text.lower name := by
  induction names generalizing scope with
  | nil => simp [addAll]
  | cons p names ih =>
    have hcons : scope.addAll (p :: names) = (scope.add p.1 p.2).addAll names := rfl
    rw [hcons, ih, declares_add]
    simp only [List.mem_cons, exists_eq_or_imp]
    rw [or_left_comm, or_assoc]

namespace Definition

variable {scope : Scope} {parameters : List (String × Ty)}

theorem parameterFault?_isSome_iff {name : String} {type : Ty} :
    (parameterFault? scope name type).isSome = true ↔
      Name.isValid name = false ∨ Name.isReserved name = true ∨ scope.declares name = true ∨
        type.isVoid = true := by
  unfold parameterFault?
  cases Name.isValid name <;> cases Name.isReserved name <;> cases scope.declares name <;>
    cases type.isVoid <;> simp

/-- Parameters cannot be added to a scope if and only if there is something wrong with one of them
in the scope that has those in front of it. -/
theorem addParameters_eq_error_iff :
    (∃ e, addParameters scope parameters = .error e) ↔
      ∃ front name type back, parameters = front ++ (name, type) :: back ∧
        (parameterFault? (scope.addAll front) name type).isSome = true := by
  induction parameters generalizing scope with
  | nil => simp [addParameters]
  | cons p rest ih =>
    obtain ⟨name, type⟩ := p
    cases hfault : parameterFault? scope name type with
    | some fault =>
      refine iff_of_true ⟨⟨0, fault⟩, by simp [addParameters, hfault, failAt]⟩ ?_
      exact ⟨[], name, type, rest, rfl, Option.isSome_iff_exists.mpr ⟨fault, hfault⟩⟩
    | none =>
      simp only [addParameters, hfault, ih]
      constructor
      · rintro ⟨front, other, t, back, rfl, h⟩
        exact ⟨(name, type) :: front, other, t, back, rfl, h⟩
      · rintro ⟨front, other, t, back, hsplit, h⟩
        cases front with
        | nil =>
          -- there is nothing wrong with the first
          cases hsplit
          rw [Scope.addAll, List.foldl_nil, hfault] at h
          cases h
        | cons p front =>
          cases hsplit
          exact ⟨front, other, t, back, rfl, h⟩

theorem line_of_addParameters_eq_error {e : CompileError}
    (h : addParameters scope parameters = .error e) : e.line = 0 ∧ e.fault ≠ .endOfSource := by
  induction parameters generalizing scope with
  | nil => cases h
  | cons p rest ih =>
    obtain ⟨name, type⟩ := p
    cases hfault : parameterFault? scope name type with
    | none =>
      simp only [addParameters, hfault] at h
      exact ih h
    | some fault =>
      simp only [addParameters, hfault] at h
      cases h
      refine ⟨rfl, ?_⟩
      rintro rfl
      unfold parameterFault? at hfault
      repeat' split at hfault
      all_goals cases hfault

/-- One of the parameters is rejected: its name is not a name, is a word of the language or is, up
to the case of letters, the name of one in front of it, or its type is void. -/
def RejectsParameter (d : Definition) : Prop :=
  ∃ front name type back, d.parameters = front ++ (name, type) :: back ∧
    (Name.isValid name = false ∨ Name.isReserved name = true ∨
      (∃ p ∈ front, Text.lower p.1 = Text.lower name) ∨ type.isVoid = true)

theorem rejectsParameter_iff {d : Definition} :
    d.RejectsParameter ↔ ∃ e, addParameters .empty d.parameters = .error e := by
  have hempty : ∀ name, Scope.empty.declares name = false := fun _ => rfl
  simp only [RejectsParameter, addParameters_eq_error_iff, parameterFault?_isSome_iff,
    Scope.declares_addAll, hempty, Bool.false_eq_true, false_or]

/-! ### Programs -/

theorem compileBody_nil {ctx : Context} {scope : Scope} {e : CompileError}
    (h : compileBody ctx scope [] = .error e) : e.line = 0 ∧ e.fault ≠ .endOfSource := by
  obtain ⟨_, hnil, h⟩ := (bind_eq_error_iff.mp h).resolve_left (by rintro ⟨⟩)
  split at h
  · cases h
    exact ⟨rfl, by simp⟩
  · cases h

end Definition

theorem Source.number_lt_of_mem_significant {raw : List (List Char)} {n : Nat} {l : Line}
    (h : l ∈ significant n raw) : l.number < n + raw.length := by
  induction raw generalizing n with
  | nil => cases h
  | cons line rest ih =>
    rw [significant] at h
    rw [List.length_cons]
    split at h
    · have hlt := ih h
      omega
    · rcases List.mem_cons.mp h with rfl | h
      · exact Nat.lt_add_of_pos_right (Nat.succ_pos _)
      · have hlt := ih h
        omega

/-- The number of a significant line is that of a line of the source. -/
theorem Source.number_bounds {source : String} {n : Nat} (h : n ∈ numbers source) :
    1 ≤ n ∧ n ≤ (Text.lines source.toList).length := by
  obtain ⟨l, hl, rfl⟩ := List.mem_map.mp h
  have hle := le_number_of_mem_significant hl
  have hlt := number_lt_of_mem_significant hl
  omega

namespace Definition

/-- **An error is on a line of the source.** The line of an error is `0` if and only if a parameter
is rejected or the source has no significant line. Otherwise it is the number of a significant line,
so it is between `1` and the number of lines of the source. An error is never that a statement was
asked for after the last line. -/
theorem compile_error_line (library : Library) (settings : Settings) (d : Definition)
    (e : CompileError) (h : d.compile library settings = .error e) :
    (e.line = 0 ↔ d.RejectsParameter ∨ Source.lines d.source = []) ∧
      (e.line ≠ 0 → e.line ∈ Source.numbers d.source ∧ 1 ≤ e.line ∧
        e.line ≤ (Text.lines d.source.toList).length) ∧
      e.fault ≠ .endOfSource := by
  rcases bind_eq_error_iff.mp h with h | ⟨scope, hscope, h⟩
  · obtain ⟨hline, hfault⟩ := line_of_addParameters_eq_error h
    have hrejects := rejectsParameter_iff.mpr ⟨e, h⟩
    exact ⟨iff_of_true hline (Or.inl hrejects), fun hne => absurd hline hne, hfault⟩
  · have haccepts : ¬ d.RejectsParameter := by
      rw [rejectsParameter_iff, hscope]
      rintro ⟨_, ⟨⟩⟩
    -- only the body can be wrong
    rcases bind_eq_error_iff.mp h with h | ⟨_, _, h⟩
    · by_cases hlines : Source.lines d.source = []
      · rw [hlines] at h
        obtain ⟨hline, hfault⟩ := compileBody_nil h
        exact ⟨iff_of_true hline (Or.inr hlines), fun hne => absurd hline hne, hfault⟩
      · obtain ⟨hmem, hfault⟩ := compileBody_among _ scope hlines e h
        have hbounds := Source.number_bounds hmem
        refine ⟨iff_of_false (by omega) ?_, fun _ => ⟨hmem, hbounds⟩, hfault⟩
        exact fun h => h.elim haccepts hlines
    · cases h

/-- A program with an undeclared name in the `if` of a loop, between comments and blank lines. -/
def miscounted : Definition where
  name := "miscounted"
  returns := .number
  parameters := [("n", .number)]
  source := "# counts down\n\nwhile (n > 0)\n\n  // in steps\n  if (n > 1)\n    n -= step\n" ++
    "  end if\nend while\nreturn n\n"

theorem compile_error_line_miscounted :
    ∃ e, miscounted.compile .standard {} = .error e ∧ e.line = 7 ∧
      ¬ (miscounted.RejectsParameter ∨ Source.lines miscounted.source = []) ∧
      e.line ∈ Source.numbers miscounted.source ∧
      e.line ≤ (Text.lines miscounted.source.toList).length ∧ e.fault ≠ .endOfSource := by
  have hline : (match miscounted.compile .standard {} with
      | .error e => e.line
      | .ok _ => 0) = 7 := by decide +kernel
  cases h : miscounted.compile .standard {} with
  | ok p =>
    rw [h] at hline
    cases hline
  | error e =>
    rw [h] at hline
    have hseven : e.line = 7 := hline
    have hne : e.line ≠ 0 := by omega
    obtain ⟨hzero, hnumber, hfault⟩ := compile_error_line .standard {} miscounted e h
    exact ⟨e, rfl, hseven, fun h => hne (hzero.mpr h), (hnumber hne).1, (hnumber hne).2.2, hfault⟩

end Definition

end WorldScript
