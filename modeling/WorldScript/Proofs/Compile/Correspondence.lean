import Mathlib.Data.List.Forall2
import WorldScript.Proofs.Compile.Heads

/-! # Two compilations side by side

Many laws of the compiler compare two of its runs: with other texts on the lines, with more lines
after them, with another library or other settings. A *correspondence* says which contexts and which
lines correspond to each other, which lines only the second run has after all others, which errors
correspond, and after which errors of the first run nothing is claimed of the second.

It is *fair* if corresponding lines have corresponding heads and dividers. Then the two
runs go the same way all through the lines: there is one induction over the budget here, with one
lemma for each of the loops inside of it.

* `Correspondence.Agree`: what it means for two results.
* `Correspondence.Fair.compileNext`: the runs agree on a statement.
* `Correspondence.Fair.compileWithin`: the runs agree on a sequence. -/

namespace WorldScript

/-- How two runs of the compiler correspond to each other. -/
structure Correspondence where
  context : Context → Context → Prop
  line : Line → Line → Prop
  /-- The lines that come after all others in the second run. -/
  extra : List Line
  error : CompileError → CompileError → Prop
  /-- The first run may fail so whatever the second one does. -/
  excused : CompileError → Prop

namespace Correspondence

variable (c : Correspondence)

/-- The results of two computations: both succeed, or both fail, with what corresponds to each
other; or the failure of the first is excused. -/
inductive Agree {α β : Type} (V : α → β → Prop) : Compile α → Compile β → Prop
  | ok {a : α} {b : β} : V a b → Agree V (.ok a) (.ok b)
  | error {e e' : CompileError} : c.error e e' → Agree V (.error e) (.error e')
  | excused {e : CompileError} {r : Compile β} : c.excused e → Agree V (.error e) r

/-- The lines of the second run are those of the first, and then the extra ones. -/
def Lines (l l' : List Line) : Prop :=
  ∃ front, List.Forall₂ c.line l front ∧ l' = front ++ c.extra

/-- The same statement, with the same effect on the scope, and corresponding lines after it. -/
structure Steps (s s' : Step) : Prop where
  statement : s.statement = s'.statement
  remaining : c.Lines s.remaining s'.remaining
  scope : s.scope = s'.scope
  line : s.line = s'.line

/-- The same statements, between corresponding lines. -/
structure Blocks (b b' : Block) : Prop where
  statements : b.statements = b'.statements
  terminator : c.line b.terminator b'.terminator
  remaining : c.Lines b.remaining b'.remaining

/-- The same arms, between corresponding lines. -/
structure Chains (a a' : Chain) : Prop where
  arms : a.arms = a'.arms
  otherwise : a.otherwise = a'.otherwise
  terminator : c.line a.terminator a'.terminator
  remaining : c.Lines a.remaining a'.remaining

/-- The same sections, between corresponding lines. -/
structure Switches (a a' : Cases) : Prop where
  cases : a.cases = a'.cases
  otherwise : a.otherwise = a'.otherwise
  terminator : c.line a.terminator a'.terminator
  remaining : c.Lines a.remaining a'.remaining

/-- The same head, apart from the context of what is inside. -/
inductive Heads : Head → Head → Prop
  | leaf (s : Statement) (after : Scope) : Heads (.leaf s after) (.leaf s after)
  | block {inside inside' : Context} (word : String) (scope : Scope)
    (make : List Statement → Statement) : c.context inside inside' →
    Heads (.block word inside scope make) (.block word inside' scope make)
  | arms (test : Checked) : Heads (.arms test) (.arms test)
  | sections (value : Checked) : Heads (.sections value) (.sections value)

/-- What is known of a single line decides the two runs in the same way. -/
structure Fair : Prop where
  switching {ctx ctx' : Context} : c.context ctx ctx' → c.context ctx.switching ctx'.switching
  number {a a' : Line} : c.line a a' → a.number = a'.number
  isEnd {a a' : Line} (h : c.line a a') (word : String) :
    LineForm.isEnd word a.text.toList = LineForm.isEnd word a'.text.toList
  isArmEnd {a a' : Line} : c.line a a' →
    LineForm.isArmEnd a.text.toList = LineForm.isArmEnd a'.text.toList
  isSectionEnd {a a' : Line} : c.line a a' →
    LineForm.isSectionEnd a.text.toList = LineForm.isSectionEnd a'.text.toList
  head {ctx ctx' : Context} {a a' : Line} : c.context ctx ctx' → c.line a a' → ∀ room scope,
    c.Agree c.Heads (Head.ofLine ctx room scope a) (Head.ofLine ctx' room scope a')
  arm {ctx ctx' : Context} {a a' : Line} : c.context ctx ctx' → c.line a a' → ∀ scope,
    c.Agree Eq (Divider.ofArm ctx scope a) (Divider.ofArm ctx' scope a')
  part {ctx ctx' : Context} {a a' : Line} : c.context ctx ctx' → c.line a a' → ∀ scope type,
    c.Agree Eq (Divider.ofSection ctx scope type a) (Divider.ofSection ctx' scope type a')
  same (e : CompileError) : c.error e e
  afterElse {a a' : Line} (h : c.line a a') (n : Nat) :
    c.error ⟨n, .afterElse a.text⟩ ⟨n, .afterElse a'.text⟩
  /-- Only an excused error can come from the end of the lines of the first run alone. -/
  unterminated : c.extra = [] ∨ ∀ line word, c.excused ⟨line, .unterminated word⟩

variable {c}

theorem Agree.bind {α α' β β' : Type} {V : α → α' → Prop} {W : β → β' → Prop} {x : Compile α}
    {x' : Compile α'} {k : α → Compile β} {k' : α' → Compile β'} (h : c.Agree V x x')
    (hk : ∀ a a', x = .ok a → x' = .ok a' → V a a' → c.Agree W (k a) (k' a')) :
    c.Agree W (x >>= k) (x' >>= k') := by
  cases h with
  | ok h => exact hk _ _ rfl rfl h
  | error h => exact .error h
  | excused h => exact .excused h

/-- A computation agrees with itself. -/
theorem Agree.refl {α : Type} {V : α → α → Prop} (hsame : ∀ e, c.error e e) (hV : ∀ a, V a a)
    (x : Compile α) : c.Agree V x x := by
  cases x with
  | ok a => exact .ok (hV a)
  | error e => exact .error (hsame e)

theorem Agree.exists_ok {α β : Type} {V : α → β → Prop} {a : α} {r : Compile β}
    (h : c.Agree V (.ok a) r) : ∃ b, r = .ok b ∧ V a b := by
  cases h with
  | ok h => exact ⟨_, rfl, h⟩

theorem Agree.exists_error {α β : Type} {V : α → β → Prop} {e : CompileError} {r : Compile β}
    (h : c.Agree V (.error e) r) (he : ¬ c.excused e) : ∃ e', r = .error e' ∧ c.error e e' := by
  cases h with
  | error h => exact ⟨_, rfl, h⟩
  | excused h => exact absurd h he

theorem Heads.refl (hcontext : ∀ ctx, c.context ctx ctx) (head : Head) : c.Heads head head := by
  cases head with
  | leaf s after => exact .leaf s after
  | block word inside scope make => exact .block word scope make (hcontext inside)
  | arms test => exact .arms test
  | sections value => exact .sections value

/-- If the lines are the same, only the expressions in them have to be looked at. -/
theorem Fair.of_eq (hline : ∀ {a a' : Line}, c.line a a' → a = a')
    (switching : ∀ {ctx ctx' : Context}, c.context ctx ctx' →
      c.context ctx.switching ctx'.switching)
    (head : ∀ {ctx ctx' : Context}, c.context ctx ctx' → ∀ room scope line,
      c.Agree c.Heads (Head.ofLine ctx room scope line) (Head.ofLine ctx' room scope line))
    (arm : ∀ {ctx ctx' : Context}, c.context ctx ctx' → ∀ scope line,
      c.Agree Eq (Divider.ofArm ctx scope line) (Divider.ofArm ctx' scope line))
    (part : ∀ {ctx ctx' : Context}, c.context ctx ctx' → ∀ scope type line,
      c.Agree Eq (Divider.ofSection ctx scope type line) (Divider.ofSection ctx' scope type line))
    (same : ∀ e, c.error e e)
    (unterminated : c.extra = [] ∨ ∀ line word, c.excused ⟨line, .unterminated word⟩) :
    c.Fair where
  switching := switching
  number h := by rw [hline h]
  isEnd h word := by rw [hline h]
  isArmEnd h := by rw [hline h]
  isSectionEnd h := by rw [hline h]
  head hctx h room scope := by
    rw [hline h]
    exact head hctx room scope _
  arm hctx h scope := by
    rw [hline h]
    exact arm hctx scope _
  part hctx h scope type := by
    rw [hline h]
    exact part hctx scope type _
  same := same
  afterElse h n := by
    rw [hline h]
    exact same _
  unterminated := unterminated

/-! ### Lines -/

theorem Lines.cons {a a' : Line} {l l' : List Line} (h : c.line a a') (hl : c.Lines l l') :
    c.Lines (a :: l) (a' :: l') := by
  obtain ⟨front, hfront, rfl⟩ := hl
  exact ⟨a' :: front, .cons h hfront, rfl⟩

theorem Lines.of_cons {a : Line} {l l' : List Line} (h : c.Lines (a :: l) l') :
    ∃ a' rest, l' = a' :: rest ∧ c.line a a' ∧ c.Lines l rest := by
  obtain ⟨front, hfront, rfl⟩ := h
  cases hfront with
  | cons h hfront => exact ⟨_, _, rfl, h, _, hfront, rfl⟩

/-- The end of the lines of a block. -/
theorem Fair.unterminated_agree (hc : c.Fair) {α β : Type} {V : α → β → Prop} {l' : List Line}
    (h : c.Lines [] l') (line : Nat) (word : String) {r : Compile β}
    (hr : l' = [] → r = failAt line (.unterminated word)) :
    c.Agree V (failAt line (.unterminated word)) r := by
  obtain ⟨front, hfront, rfl⟩ := h
  cases hfront
  rcases hc.unterminated with hextra | hexcused
  · rw [hr (by rw [hextra]; rfl)]
    exact .error (hc.same _)
  · exact .excused (hexcused line word)

theorem Fair.checkEnd (hc : c.Fair) {a a' : Line} (h : c.line a a') (word : String)
    {fault fault' : CompileFault} (hfault : ∀ n, c.error ⟨n, fault⟩ ⟨n, fault'⟩) :
    c.Agree Eq (checkEnd word fault a) (checkEnd word fault' a') := by
  unfold WorldScript.checkEnd
  rw [hc.isEnd h, hc.number h]
  split
  · exact .ok rfl
  · exact .error (hfault _)

/-! ### Blocks -/

/-- The statements at the start of corresponding lines agree. -/
def Nexts (c : Correspondence) (next next' : Next) : Prop :=
  ∀ scope {a a' : Line} {l l' : List Line}, c.line a a' → c.Lines l l' →
    c.Agree c.Steps (next scope (a :: l)) (next' scope (a' :: l'))

section Blocks

variable {next next' : Next} (hc : c.Fair) (hnext : c.Nexts next next') (hless : Measured next)
  (hless' : Measured next')

include hc hnext hless hless'

/-- The bounds of the two loops are of no importance, as long as both are large enough. -/
theorem Nexts.readWithin {isEnd : List Char → Bool}
    (hisEnd : ∀ {a a' : Line}, c.line a a' → isEnd a.text.toList = isEnd a'.text.toList)
    (word : String) (opening : Nat) {n n' : Nat} (scope : Scope) {l l' : List Line}
    (hl : c.Lines l l') (hn : l.length < n) (hn' : l'.length < n') :
    c.Agree c.Blocks
      (Block.readWithin next isEnd ⟨opening, .unterminated word⟩ n scope l)
      (Block.readWithin next' isEnd ⟨opening, .unterminated word⟩ n' scope l') := by
  induction n generalizing n' scope l l' with
  | zero => omega
  | succ n ih =>
    obtain ⟨n', rfl⟩ := Nat.exists_eq_add_one.mpr (Nat.zero_lt_of_lt hn')
    cases l with
    | nil =>
      refine hc.unterminated_agree hl opening word ?_
      rintro rfl
      rfl
    | cons a l =>
      obtain ⟨a', l', rfl, ha, hl⟩ := hl.of_cons
      simp only [Block.readWithin]
      rw [hisEnd ha]
      split
      · exact .ok ⟨rfl, ha, hl⟩
      · refine (hnext scope ha hl).bind fun step step' hstep hstep' hsteps => ?_
        have hlength := (hless _ _ _ hstep).length_lt
        have hlength' := (hless' _ _ _ hstep').length_lt
        rw [hsteps.scope, hsteps.statement]
        refine (ih step'.scope hsteps.remaining (by omega) (by omega)).bind ?_
        intro block block' _ _ hblocks
        exact .ok ⟨congrArg (List.cons _) hblocks.statements, hblocks.terminator,
          hblocks.remaining⟩

theorem Nexts.read {isEnd : List Char → Bool}
    (hisEnd : ∀ {a a' : Line}, c.line a a' → isEnd a.text.toList = isEnd a'.text.toList)
    (word : String) (opening : Nat) (scope : Scope) {l l' : List Line} (hl : c.Lines l l') :
    c.Agree c.Blocks (Block.read next isEnd word opening scope l)
      (Block.read next' isEnd word opening scope l') :=
  hnext.readWithin hc hless hless' hisEnd word opening scope hl (Nat.lt_succ_self _)
    (Nat.lt_succ_self _)

theorem Nexts.chain {ctx ctx' : Context} (hctx : c.context ctx ctx') (opening : Nat)
    (scope : Scope) {n n' : Nat} (line : Nat) (test : Checked) {l l' : List Line}
    (hl : c.Lines l l') (hn : l.length < n) (hn' : l'.length < n') :
    c.Agree c.Chains (Chain.readWithin ctx next opening scope n line test l)
      (Chain.readWithin ctx' next' opening scope n' line test l') := by
  induction n generalizing n' line test l l' with
  | zero => omega
  | succ n ih =>
    obtain ⟨n', rfl⟩ := Nat.exists_eq_add_one.mpr (Nat.zero_lt_of_lt hn')
    rw [Chain.readWithin_cons, Chain.readWithin_cons]
    have hread : ∀ {l l' : List Line}, c.Lines l l' → c.Agree c.Blocks
        (Block.read next LineForm.isArmEnd "if" opening scope l)
        (Block.read next' LineForm.isArmEnd "if" opening scope l') := fun hl =>
      hnext.read hc hless hless' hc.isArmEnd "if" opening scope hl
    refine (hread hl).bind fun block block' hblock hblock' hblocks => ?_
    have hlength := hless.length_read_lt hblock
    have hlength' := hless'.length_read_lt hblock'
    refine (hc.arm hctx hblocks.terminator scope).bind fun divider divider' _ _ hdivider => ?_
    subst hdivider
    rw [hblocks.statements]
    cases divider with
    | finish => exact .ok ⟨rfl, rfl, hblocks.terminator, hblocks.remaining⟩
    | guard test =>
      simp only [Chain.afterArm]
      rw [hc.number hblocks.terminator]
      refine (ih _ test hblocks.remaining (by omega) (by omega)).bind ?_
      intro chain chain' _ _ hchain
      exact .ok ⟨congrArg (List.cons _) hchain.arms, hchain.otherwise, hchain.terminator,
        hchain.remaining⟩
    | last =>
      refine (hread hblocks.remaining).bind fun last last' _ _ hlast => ?_
      refine (hc.checkEnd hlast.terminator "if" (hc.afterElse hlast.terminator)).bind ?_
      intro _ _ _ _ _
      exact .ok ⟨rfl, congrArg some hlast.statements, hlast.terminator, hlast.remaining⟩

theorem Nexts.cases {ctx ctx' : Context} (hctx : c.context ctx ctx') (opening : Nat)
    (scope : Scope) (type : Ty) {n n' : Nat} {l l' : List Line} (hl : c.Lines l l')
    (hn : l.length < n) (hn' : l'.length < n') :
    c.Agree c.Switches (Cases.readWithin ctx next opening scope type n l)
      (Cases.readWithin ctx' next' opening scope type n' l') := by
  induction n generalizing n' l l' with
  | zero => omega
  | succ n ih =>
    obtain ⟨n', rfl⟩ := Nat.exists_eq_add_one.mpr (Nat.zero_lt_of_lt hn')
    cases l with
    | nil =>
      refine hc.unterminated_agree hl opening "switch" ?_
      rintro rfl
      rfl
    | cons a l =>
      obtain ⟨a', l', rfl, ha, hl⟩ := hl.of_cons
      rw [Cases.readWithin_cons, Cases.readWithin_cons]
      have hread := hnext.read hc hless hless' hc.isSectionEnd "switch" opening scope hl
      refine (hc.part hctx ha scope type).bind fun divider divider' _ _ hdivider => ?_
      subst hdivider
      cases divider with
      | finish => exact .ok ⟨rfl, rfl, ha, hl⟩
      | guard value =>
        refine hread.bind fun block block' hblock hblock' hblocks => ?_
        have hlength := hless.length_read_lt hblock
        have hlength' := hless'.length_read_lt hblock'
        simp only [List.length_cons] at hn hn'
        rw [hc.number ha, hblocks.statements]
        refine (ih (hblocks.remaining.cons hblocks.terminator)
          (by simp only [List.length_cons]; omega) (by simp only [List.length_cons]; omega)).bind ?_
        intro more more' _ _ hmore
        exact .ok ⟨congrArg (List.cons _) hmore.cases, hmore.otherwise, hmore.terminator,
          hmore.remaining⟩
      | last =>
        refine hread.bind fun block block' _ _ hblocks => ?_
        refine (hc.checkEnd hblocks.terminator "switch" fun n => hc.same _).bind ?_
        intro _ _ _ _ _
        exact .ok ⟨rfl, congrArg some hblocks.statements, hblocks.terminator, hblocks.remaining⟩

end Blocks

/-! ### Statements -/

/-- The statements of corresponding heads. -/
theorem Fair.readHead (hc : c.Fair) {next : Context → Next} (hless : ∀ inside, Measured (next inside))
    (hnext : ∀ {inside inside' : Context}, c.context inside inside' →
      c.Nexts (next inside) (next inside'))
    {ctx ctx' : Context} (hctx : c.context ctx ctx') (scope : Scope) {a a' : Line}
    (ha : c.line a a') {l l' : List Line} (hl : c.Lines l l') {head head' : Head}
    (hhead : c.Heads head head') :
    c.Agree c.Steps (head.read ctx next scope a l) (head'.read ctx' next scope a' l') := by
  have hnumber := hc.number ha
  cases hhead with
  | leaf s after => exact .ok ⟨rfl, hl, rfl, hnumber⟩
  | @block inside inside' word bodyScope make hinside =>
    simp only [Head.read, Block.readEnd]
    rw [hnumber]
    refine ((hnext hinside).read hc (hless _) (hless _) (fun h => hc.isEnd h word) word a'.number
      bodyScope hl).bind fun block block' _ _ hblocks => ?_
    exact .ok ⟨congrArg make hblocks.statements, hblocks.remaining, rfl,
      hc.number hblocks.terminator⟩
  | arms test =>
    simp only [Head.read, Chain.read]
    rw [hnumber]
    refine ((hnext hctx).chain hc (hless _) (hless _) hctx a'.number scope a'.number test hl
      (Nat.lt_succ_self _) (Nat.lt_succ_self _)).bind fun chain chain' _ _ hchain => ?_
    refine .ok ⟨?_, hchain.remaining, rfl, hc.number hchain.terminator⟩
    rw [hchain.arms, hchain.otherwise]
  | sections value =>
    simp only [Head.read, Cases.read]
    rw [hnumber]
    refine ((hnext (hc.switching hctx)).cases hc (hless _) (hless _) hctx a'.number scope value.type
      hl (Nat.lt_succ_self _) (Nat.lt_succ_self _)).bind fun cases cases' _ _ hcases => ?_
    refine .ok ⟨?_, hcases.remaining, rfl, hc.number hcases.terminator⟩
    rw [hcases.cases, hcases.otherwise]

/-- **The two runs agree on a statement.** -/
theorem Fair.compileNext (hc : c.Fair) (budget : Nat) {ctx ctx' : Context}
    (hctx : c.context ctx ctx') : c.Nexts (compileNext budget ctx) (compileNext budget ctx') := by
  -- with no budget left the heads ask for nothing, so any value will do for what is inside
  induction budget using Nat.strongRecOn generalizing ctx ctx' with
  | ind budget ih =>
    intro scope a a' l l' ha hl
    rw [compileNext_cons, compileNext_cons]
    refine (hc.head hctx ha _ scope).bind fun head head' hhead hhead' hheads => ?_
    rcases Nat.eq_zero_or_pos budget with rfl | hpos
    · obtain ⟨s, after, rfl⟩ := Head.eq_leaf_of_ofLine hhead
      cases hheads
      exact .ok ⟨rfl, hl, rfl, hc.number ha⟩
    · exact hc.readHead (fun inside => compileNext_madeOf _ inside)
        (fun hinside => ih (budget - 1) (by omega) hinside) hctx scope ha hl hheads

/-- The two runs agree on a sequence, if they have the same number of lines. -/
theorem Fair.compileWithin (hc : c.Fair) (hextra : c.extra = []) (budget : Nat) {ctx ctx' : Context}
    (hctx : c.context ctx ctx') {n n' : Nat} (scope : Scope) {l l' : List Line}
    (hl : List.Forall₂ c.line l l') (hn : l.length ≤ n) (hn' : l'.length ≤ n') :
    c.Agree Eq (compileWithin (WorldScript.compileNext budget ctx) n scope l)
      (compileWithin (WorldScript.compileNext budget ctx') n' scope l') := by
  induction n generalizing n' scope l l' with
  | zero =>
    obtain rfl := List.length_eq_zero_iff.mp (Nat.le_zero.mp hn)
    cases hl
    cases n' <;> exact .ok rfl
  | succ n ih =>
    cases hl with
    | nil => cases n' <;> exact .ok rfl
    | @cons a a' l l' ha hl =>
      simp only [List.length_cons] at hn hn'
      obtain ⟨n', rfl⟩ := Nat.exists_eq_add_one.mpr (Nat.zero_lt_of_lt hn')
      have hlines : c.Lines l l' := ⟨l', hl, by rw [hextra, List.append_nil]⟩
      refine (hc.compileNext budget hctx scope ha hlines).bind ?_
      intro step step' hstep hstep' hsteps
      have hlength := (compileNext_madeOf _ _ _ _ _ hstep).length_lt
      have hlength' := (compileNext_madeOf _ _ _ _ _ hstep').length_lt
      simp only [List.length_cons] at hlength hlength'
      obtain ⟨front, hfront, hremaining⟩ := hsteps.remaining
      rw [hextra, List.append_nil] at hremaining
      subst hremaining
      rw [hsteps.scope, hsteps.statement]
      refine (ih step'.scope hfront (by omega) (by omega)).bind fun more more' _ _ hmore => ?_
      exact .ok (congrArg (List.cons _) hmore)

end Correspondence

end WorldScript
