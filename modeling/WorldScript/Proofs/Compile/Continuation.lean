import WorldScript.Proofs.Compile.Correspondence

/-! # What follows a statement

The compiler does not look beyond the end of a statement. If it succeeds on some lines, it gives the
same with more lines after them, and leaves these lines as they are. If it fails, then with the same
error, unless a block was not closed: only that can be mended by lines that come later.

* `compileAll`: the statements of some lines with a budget of nesting; `compileSequence` is the case
  of the whole budget.
* `compileNext_append`, `compileNext_append_error`: the two halves of the law for a statement.
* `compileAll_append`: lines are compiled in parts, the second in the scope after the first.
* `compileNext_continued`: all of it. -/

namespace WorldScript

/-- The statements of some lines, with a budget of nesting. -/
def compileAll (budget : Nat) (ctx : Context) (scope : Scope) (lines : List Line) :
    Compile (List Statement) :=
  compileWithin (compileNext budget ctx) lines.length scope lines

theorem compileSequence_eq (ctx : Context) :
    compileSequence ctx = compileAll ctx.settings.maxNesting ctx := rfl

/-- The scope after some statements. -/
def Statement.scopeAfterAll (scope : Scope) (l : List Statement) : Scope :=
  l.foldl Statement.scopeAfter scope

/-! ### Statements -/

/-- The same lines with some more after them. A block that is not closed may be closed there. -/
def Correspondence.continued (extra : List Line) : Correspondence where
  context := Eq
  line := Eq
  extra := extra
  error := Eq
  excused e := ∃ word, e.fault = .unterminated word

namespace Correspondence

theorem continued_fair (extra : List Line) : (continued extra).Fair := by
  have hsame : ∀ e, (continued extra).error e e := fun e => rfl
  refine Fair.of_eq id ?_ ?_ ?_ ?_ hsame (Or.inr fun line word => ⟨word, rfl⟩)
  · rintro ctx _ rfl
    rfl
  · rintro ctx _ rfl room scope line
    exact Agree.refl hsame (Heads.refl fun _ => rfl) _
  · rintro ctx _ rfl scope line
    exact Agree.refl hsame (fun _ => rfl) _
  · rintro ctx _ rfl scope type line
    exact Agree.refl hsame (fun _ => rfl) _

theorem continued_lines_iff {extra l l' : List Line} :
    (continued extra).Lines l l' ↔ l' = l ++ extra := by
  have hfront : ∀ front, List.Forall₂ (continued extra).line l front ↔ l = front := fun front =>
    iff_of_eq (congrFun (congrFun List.forall₂_eq_eq_eq l) front)
  constructor
  · rintro ⟨front, hl, rfl⟩
    rw [(hfront front).mp hl]
    rfl
  · rintro rfl
    exact ⟨l, (hfront l).mpr rfl, rfl⟩

theorem continued_agree (budget : Nat) (ctx : Context) (scope : Scope) (line : Line)
    (rest extra : List Line) :
    (continued extra).Agree (continued extra).Steps (compileNext budget ctx scope (line :: rest))
      (compileNext budget ctx scope (line :: rest ++ extra)) :=
  (continued_fair extra).compileNext budget rfl scope rfl (continued_lines_iff.mpr rfl)

end Correspondence

open Correspondence (continued continued_agree continued_lines_iff)

section Append

variable {budget : Nat} {ctx : Context} {scope : Scope} {lines : List Line}

/-- The step with more lines after it. -/
def Step.before (step : Step) (extra : List Line) : Step :=
  { step with remaining := step.remaining ++ extra }

theorem compileNext_append {step : Step} (h : compileNext budget ctx scope lines = .ok step)
    (extra : List Line) :
    compileNext budget ctx scope (lines ++ extra) = .ok (step.before extra) := by
  cases lines with
  | nil => cases budget <;> exact absurd h failAt_ne_ok
  | cons line rest =>
    have hagree := continued_agree budget ctx scope line rest extra
    rw [h] at hagree
    obtain ⟨step', h', hsteps⟩ := hagree.exists_ok
    rw [h']
    obtain ⟨s, remaining, after, last⟩ := step
    obtain ⟨s', remaining', after', last'⟩ := step'
    obtain rfl : s = s' := hsteps.statement
    obtain rfl : after = after' := hsteps.scope
    obtain rfl : last = last' := hsteps.line
    obtain rfl : remaining' = remaining ++ extra := continued_lines_iff.mp hsteps.remaining
    rfl

theorem compileNext_append_error {e : CompileError} (hlines : lines ≠ [])
    (h : compileNext budget ctx scope lines = .error e) (he : ∀ word, e.fault ≠ .unterminated word)
    (extra : List Line) : compileNext budget ctx scope (lines ++ extra) = .error e := by
  obtain ⟨line, rest, rfl⟩ := List.exists_cons_of_ne_nil hlines
  have hagree := continued_agree budget ctx scope line rest extra
  rw [h] at hagree
  have hexcused : ¬ (continued extra).excused e := by
    rintro ⟨word, hword⟩
    exact he word hword
  obtain ⟨e', h', rfl⟩ := hagree.exists_error hexcused
  exact h'

end Append

/-! ### Sequences -/

/-- The bound on the number of statements is of no importance, as long as it is large enough. -/
theorem Measured.compileWithin_bound {next : Next} (hnext : Measured next) {n n' : Nat}
    (scope : Scope) {lines : List Line} (hn : lines.length ≤ n) (hn' : lines.length ≤ n') :
    compileWithin next n scope lines = compileWithin next n' scope lines := by
  induction n generalizing n' scope lines with
  | zero =>
    obtain rfl := List.length_eq_zero_iff.mp (Nat.le_zero.mp hn)
    cases n' <;> rfl
  | succ n ih =>
    cases lines with
    | nil => cases n' <;> rfl
    | cons line rest =>
      simp only [List.length_cons] at hn hn'
      obtain ⟨n', rfl⟩ := Nat.exists_eq_add_one.mpr (Nat.zero_lt_of_lt hn')
      simp only [compileWithin]
      cases hstep : next scope (line :: rest) with
      | error e => rfl
      | ok step =>
        have hlength := (hnext _ _ _ hstep).length_lt
        simp only [List.length_cons] at hlength
        have hmore : compileWithin next n step.scope step.remaining =
            compileWithin next n' step.scope step.remaining := ih step.scope (by omega) (by omega)
        simp only [ok_bind, hmore]

/-- The first statement of a sequence, and the rest of them. -/
theorem compileAll_cons (budget : Nat) (ctx : Context) (scope : Scope) (line : Line)
    (rest : List Line) :
    compileAll budget ctx scope (line :: rest) =
      compileNext budget ctx scope (line :: rest) >>= fun step =>
        (step.statement :: ·) <$> compileAll budget ctx step.scope step.remaining := by
  simp only [compileAll, List.length_cons, compileWithin]
  cases hstep : compileNext budget ctx scope (line :: rest) with
  | error e => rfl
  | ok step =>
    have hnext := compileNext_madeOf budget ctx
    have hlength := (hnext _ _ _ hstep).length_lt
    simp only [List.length_cons] at hlength
    simp only [ok_bind]
    rw [hnext.compileWithin_bound step.scope (n := rest.length) (by omega) (Nat.le_refl _)]
    rfl

theorem compileAll_nil (budget : Nat) (ctx : Context) (scope : Scope) :
    compileAll budget ctx scope [] = .ok [] := rfl

/-- What is left after a statement is shorter, so sequences can be taken statement by statement. -/
theorem compileAll_induction (budget : Nat) (ctx : Context) {P : Scope → List Line → Prop}
    (hnil : ∀ scope, P scope [])
    (hcons : ∀ scope line rest,
      (∀ step, compileNext budget ctx scope (line :: rest) = .ok step →
        P step.scope step.remaining) → P scope (line :: rest))
    (scope : Scope) (lines : List Line) : P scope lines := by
  induction hn : lines.length using Nat.strongRecOn generalizing scope lines with
  | ind n ih =>
    cases lines with
    | nil => exact hnil scope
    | cons line rest =>
      refine hcons scope line rest fun step hstep => ?_
      have hlength := (compileNext_madeOf budget ctx _ _ _ hstep).length_lt
      exact ih _ (hn ▸ hlength) _ _ rfl

theorem compileNext_scope {budget : Nat} {ctx : Context} {scope : Scope} {lines : List Line}
    {step : Step} (h : compileNext budget ctx scope lines = .ok step) :
    step.scope = step.statement.scopeAfter scope :=
  (compileNext_faithful lines budget ctx scope lines step (List.suffix_refl lines) h).2.1

/-- Lines are compiled in parts, the second in the scope after the first. -/
theorem compileAll_append {budget : Nat} {ctx : Context} {scope : Scope} {first : List Line}
    {statements : List Statement} (h : compileAll budget ctx scope first = .ok statements)
    (second : List Line) :
    compileAll budget ctx scope (first ++ second) =
      (statements ++ ·) <$>
        compileAll budget ctx (Statement.scopeAfterAll scope statements) second := by
  induction scope, first using compileAll_induction budget ctx
    generalizing statements with
  | hnil scope =>
    rw [compileAll_nil] at h
    cases h
    exact (id_map _).symm
  | hcons scope line rest ih =>
    rw [compileAll_cons, bind_eq_ok_iff] at h
    obtain ⟨step, hstep, h⟩ := h
    rw [map_eq_pure_bind, bind_eq_ok_iff] at h
    obtain ⟨more, hmore, hstatements⟩ := h
    obtain rfl := pure_eq_ok_iff.mp hstatements
    rw [List.cons_append, compileAll_cons, ← List.cons_append, compileNext_append hstep, ok_bind]
    simp only [Step.before]
    rw [ih step hstep hmore, compileNext_scope hstep, ← comp_map]
    rfl

/-- **What follows does not matter.** A statement that compiles is compiled to the same when more
lines follow, which are left as they are. A failure stays as it is, line and message, unless a block
was not closed. So a source can be compiled in parts, each in the scope after the one before. -/
theorem compileNext_continued :
    (∀ {budget : Nat} {ctx : Context} {scope : Scope} {lines : List Line} {step : Step},
      compileNext budget ctx scope lines = .ok step → ∀ extra,
      compileNext budget ctx scope (lines ++ extra) =
        .ok ⟨step.statement, step.remaining ++ extra, step.scope, step.line⟩) ∧
    (∀ {budget : Nat} {ctx : Context} {scope : Scope} {lines : List Line} {e : CompileError},
      lines ≠ [] → compileNext budget ctx scope lines = .error e →
      (∀ word, e.fault ≠ .unterminated word) → ∀ extra,
      compileNext budget ctx scope (lines ++ extra) = .error e) ∧
    ∀ {budget : Nat} {ctx : Context} {scope : Scope} {first : List Line}
      {statements : List Statement}, compileAll budget ctx scope first = .ok statements →
      ∀ second, compileAll budget ctx scope (first ++ second) =
        (statements ++ ·) <$>
          compileAll budget ctx (Statement.scopeAfterAll scope statements) second := by
  refine ⟨?_, ?_, ?_⟩
  · intro budget ctx scope lines step h extra
    exact compileNext_append h extra
  · intro budget ctx scope lines e hlines h he extra
    exact compileNext_append_error hlines h he extra
  · intro budget ctx scope first statements h second
    exact compileAll_append h second

/-- The number of the line that is no statement, if the failure is of this sort. -/
def Compile.unrecognisedAt? {α : Type} : Compile α → Option Nat
  | .error ⟨line, .unrecognised _⟩ => some line
  | _ => none

theorem Compile.of_unrecognisedAt? {α : Type} {c : Compile α} {line : Nat}
    (h : c.unrecognisedAt? = some line) :
    ∃ e, c = .error e ∧ e.line = line ∧ ∀ word, e.fault ≠ .unterminated word := by
  unfold unrecognisedAt? at h
  split at h
  · cases h
    refine ⟨_, rfl, rfl, ?_⟩
    intro word hword
    cases hword
  · cases h

/-- The context of a program that returns nothing, with the standard library and settings. -/
def Context.plain : Context := { library := .standard, settings := {}, returns := .void }

/-- A declaration and a loop with an `if` inside. -/
def Source.countUp : List Line :=
  Source.lines "var n as number\nwhile (n < 3)\nif (true)\nn += 1\nend if\nend while"

/-- The last line of `Source.countUp` is missing, and one is no statement. -/
def Source.countOn : List Line :=
  Source.lines "while (true)\nif (true)\ncount on\nend if"

/-- Lines that use what `Source.countUp` declares. -/
def Source.countDown : List Line :=
  Source.lines "while (n > 0)\nn -= 1\nend while"

theorem compileNext_continued_countUp :
    (∃ step, compileNext 2 .plain .empty Source.countUp = .ok step ∧
      compileNext 2 .plain .empty (Source.countUp ++ Source.countDown) =
        .ok ⟨step.statement, step.remaining ++ Source.countDown, step.scope, step.line⟩) ∧
    (∃ e, compileNext 2 .plain .empty Source.countOn = .error e ∧ e.line = 3 ∧
      compileNext 2 .plain .empty (Source.countOn ++ Source.countDown) = .error e) ∧
    ∃ statements more, compileAll 2 .plain .empty Source.countUp = .ok statements ∧
      compileAll 2 .plain (Statement.scopeAfterAll .empty statements) Source.countDown =
        .ok more ∧
      compileAll 2 .plain .empty (Source.countUp ++ Source.countDown) =
        .ok (statements ++ more) := by
  refine ⟨?_, ?_, ?_⟩
  · have hextent : Step.extent? (compileNext 2 .plain .empty Source.countUp) =
        some (1, 1, Source.countUp.tail) := by
      decide +kernel
    obtain ⟨step, hstep, -⟩ := Step.extent?_eq_some hextent
    exact ⟨step, hstep, compileNext_continued.1 hstep Source.countDown⟩
  · have hline : (compileNext 2 .plain .empty Source.countOn).unrecognisedAt? = some 3 := by
      decide +kernel
    obtain ⟨e, he, hthree, hfault⟩ := Compile.of_unrecognisedAt? hline
    exact ⟨e, he, hthree,
      compileNext_continued.2.1 (by decide +kernel) he hfault Source.countDown⟩
  · have hall : (compileAll 2 .plain .empty (Source.countUp ++ Source.countDown)).isOk = true := by
      decide +kernel
    have hfirst : (compileAll 2 .plain .empty Source.countUp).isOk = true := by
      decide +kernel
    obtain ⟨statements, h⟩ := exists_eq_ok_of_isOk hfirst
    have hparts := compileNext_continued.2.2 h Source.countDown
    rw [hparts, map_eq_pure_bind] at hall
    obtain ⟨both, hboth⟩ := exists_eq_ok_of_isOk hall
    obtain ⟨more, hmore, -⟩ := bind_eq_ok_iff.mp hboth
    rw [hmore] at hparts
    exact ⟨statements, more, h, hmore, hparts⟩

end WorldScript
