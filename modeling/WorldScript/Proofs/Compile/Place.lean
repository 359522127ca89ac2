import WorldScript.Compile.Basic
import WorldScript.Proofs.Expr.Typed

/-! # Where the statements of a program stand

A *place* is what the compiler knows when it comes to a statement: the context and the scope. The
places of all statements of a tree follow from the place of its first one. A declaration adds its
name to the scope of what comes after it in the same block; a counting loop and a loop over items
add their variable to the scope of their body; loops, switches and delays change the context of
theirs.

* `Occurs p l q s`: in a sequence `l` that stands at `p`, the statement `s` stands at `q`, be it in
  the sequence itself or in some block inside of it.
* `Faithful lines ctx next`: what `next` compiles came out of the compiler at its own place, from a
  tail of the lines. It is shown here for blocks, chains and cases, given that it holds of the
  statements in them. -/

namespace WorldScript

/-- The context and the scope of a statement. -/
structure Place where
  context : Context
  scope : Scope

namespace Statement

/-- The scope after a statement. -/
def scopeAfter (scope : Scope) : Statement → Scope
  | declare _ name type _ => scope.add name type
  | _ => scope

/-- The scope of the blocks of a statement. -/
def bodyScope (scope : Scope) : Statement → Scope
  | forCount _ name _ _ => scope.add name .number
  | forEach _ name element _ _ => scope.add name element
  | _ => scope

/-- The context of the blocks of a statement. -/
def bodyContext (ctx : Context) : Statement → Context
  | forCount _ _ _ _ => ctx.looping
  | forEach _ _ _ _ _ => ctx.looping
  | whileLoop _ _ _ => ctx.looping
  | switch _ _ _ _ => ctx.switching
  | delay _ _ _ => ctx.delaying
  | _ => ctx

/-- The blocks of a statement. -/
def blocks : Statement → List (List Statement)
  | ifChain _ arms otherwise => arms.map Section.body ++ otherwise.toList
  | switch _ _ cases otherwise => cases.map Section.body ++ otherwise.toList
  | forCount _ _ _ body => [body]
  | forEach _ _ _ _ body => [body]
  | whileLoop _ _ body => [body]
  | delay _ _ body => [body]
  | _ => []

end Statement

namespace Place

/-- The place of what follows a statement. -/
def after (p : Place) (s : Statement) : Place := ⟨p.context, s.scopeAfter p.scope⟩

/-- The place of the blocks of a statement. -/
def inside (p : Place) (s : Statement) : Place := ⟨s.bodyContext p.context, s.bodyScope p.scope⟩

end Place

/-- A statement occurs in a sequence that stands at the first place; the second place is its own. -/
inductive Occurs : Place → List Statement → Place → Statement → Prop
  | head {p : Place} {s : Statement} {rest : List Statement} : Occurs p (s :: rest) p s
  | tail {p q : Place} {s t : Statement} {rest : List Statement} :
    Occurs (p.after s) rest q t → Occurs p (s :: rest) q t
  | block {p q : Place} {s t : Statement} {rest body : List Statement} :
    body ∈ s.blocks → Occurs (p.inside s) body q t → Occurs p (s :: rest) q t

/-- A property of places and statements that holds all through a sequence. -/
def Everywhere (P : Place → Statement → Prop) (p : Place) (l : List Statement) : Prop :=
  ∀ q s, Occurs p l q s → P q s

section Everywhere

variable {P Q : Place → Statement → Prop} {p : Place} {s : Statement} {rest : List Statement}

theorem everywhere_nil : Everywhere P p [] := by
  intro q s h
  cases h

theorem everywhere_cons_iff : Everywhere P p (s :: rest) ↔
    P p s ∧ Everywhere P (p.after s) rest ∧ ∀ body ∈ s.blocks, Everywhere P (p.inside s) body := by
  constructor
  · intro h
    exact ⟨h _ _ .head, fun q t ht => h q t (.tail ht), fun body hb q t ht => h q t (.block hb ht)⟩
  · rintro ⟨hs, hrest, hblocks⟩ q t ht
    cases ht with
    | head => exact hs
    | tail ht => exact hrest q t ht
    | block hb ht => exact hblocks _ hb q t ht

theorem Everywhere.head (h : Everywhere P p (s :: rest)) : P p s := (everywhere_cons_iff.mp h).1

theorem Everywhere.tail (h : Everywhere P p (s :: rest)) : Everywhere P (p.after s) rest :=
  (everywhere_cons_iff.mp h).2.1

theorem Everywhere.block (h : Everywhere P p (s :: rest)) {body : List Statement}
    (hb : body ∈ s.blocks) : Everywhere P (p.inside s) body :=
  (everywhere_cons_iff.mp h).2.2 body hb

theorem Everywhere.mono {l : List Statement} (h : Everywhere P p l)
    (hPQ : ∀ q s, P q s → Q q s) : Everywhere Q p l :=
  fun q s hs => hPQ q s (h q s hs)

/-- What is kept from a place to the places after and inside of its statements holds everywhere. -/
theorem everywhere_of_place {P : Place → Prop} (hafter : ∀ {p} s, P p → P (p.after s))
    (hinside : ∀ {p} s, P p → P (p.inside s)) {p : Place} (h : P p) (l : List Statement) :
    Everywhere (fun q _ => P q) p l := by
  intro q s hs
  induction hs with
  | head => exact h
  | tail _ ih => exact ih (hafter _ h)
  | block _ _ ih => exact ih (hinside _ h)

theorem Everywhere.and {l : List Statement} (hP : Everywhere P p l) (hQ : Everywhere Q p l) :
    Everywhere (fun p s => P p s ∧ Q p s) p l :=
  fun q s hs => ⟨hP q s hs, hQ q s hs⟩

end Everywhere

theorem failAt_ne_ok {α : Type} {line : Nat} {fault : CompileFault} {a : α} :
    failAt line fault ≠ .ok a := by
  simp [failAt]

theorem Scope.add_lower (scope : Scope) (name : String) (type : Ty) :
    scope.add (Text.lower name) type = scope.add name type := by
  simp only [Scope.add, Text.lower_lower]

/-! ### What the compiler produces -/

/-- The statement came out of the compiler at its place, from a tail of the given lines. -/
def Produced (lines : List Line) (p : Place) (s : Statement) : Prop :=
  ∃ budget start step, start <:+ lines ∧ compileNext budget p.context p.scope start = .ok step ∧
    step.statement = s

/-- What is compiled in a context leaves a tail of the lines and the right scope, and all its
statements were produced at their places. -/
def Faithful (lines : List Line) (ctx : Context) (next : Next) : Prop :=
  ∀ scope start step, start <:+ lines → next scope start = .ok step →
    step.remaining <:+ lines ∧ step.scope = step.statement.scopeAfter scope ∧
      Everywhere (Produced lines) ⟨ctx, scope⟩ [step.statement]

section Blocks

variable {lines : List Line} {ctx : Context} {next : Next}

theorem Faithful.readWithin (hnext : Faithful lines ctx next) {isEnd : List Char → Bool}
    {unterminated : CompileError} {n : Nat} {scope : Scope} {start : List Line} {block : Block}
    (hstart : start <:+ lines)
    (h : Block.readWithin next isEnd unterminated n scope start = .ok block) :
    block.terminator :: block.remaining <:+ lines ∧
      Everywhere (Produced lines) ⟨ctx, scope⟩ block.statements := by
  -- induction on the bound; the scope moves on with every statement
  induction n generalizing scope start block with
  | zero => cases start <;> simp [Block.readWithin] at h
  | succ n ih =>
    cases start with
    | nil => simp [Block.readWithin] at h
    | cons line rest =>
      simp only [Block.readWithin] at h
      split at h
      · cases h
        exact ⟨hstart, everywhere_nil⟩
      · simp only [bind_eq_ok_iff, pure_eq_ok_iff] at h
        obtain ⟨step, hstep, more, hmore, rfl⟩ := h
        obtain ⟨hrem, hscope, hstmt⟩ := hnext _ _ _ hstart hstep
        obtain ⟨hterm, hall⟩ := ih hrem hmore
        refine ⟨hterm, everywhere_cons_iff.mpr ⟨hstmt.head, ?_, fun b hb => hstmt.block hb⟩⟩
        simpa only [Place.after, ← hscope] using hall

theorem Faithful.read (hnext : Faithful lines ctx next) {isEnd : List Char → Bool} {word : String}
    {opening : Nat} {scope : Scope} {start : List Line} {block : Block} (hstart : start <:+ lines)
    (h : Block.read next isEnd word opening scope start = .ok block) :
    block.terminator :: block.remaining <:+ lines ∧
      Everywhere (Produced lines) ⟨ctx, scope⟩ block.statements :=
  hnext.readWithin hstart h

/-- What is left after the line that ends a block. -/
theorem tail_suffix {line : Line} {rest : List Line} (h : line :: rest <:+ lines) :
    rest <:+ lines :=
  (List.suffix_cons line rest).trans h

theorem Faithful.chain (hnext : Faithful lines ctx next) {outer : Context} {opening n line : Nat}
    {scope : Scope} {test : Checked} {start : List Line} {chain : Chain} (hstart : start <:+ lines)
    (h : Chain.readWithin outer next opening scope n line test start = .ok chain) :
    chain.remaining <:+ lines ∧
      ∀ body ∈ chain.arms.map Section.body ++ chain.otherwise.toList,
        Everywhere (Produced lines) ⟨ctx, scope⟩ body := by
  induction n generalizing line test start chain with
  | zero => exact absurd h failAt_ne_ok
  | succ n ih =>
    simp only [Chain.readWithin, bind_eq_ok_iff] at h
    obtain ⟨block, hblock, h⟩ := h
    obtain ⟨hterm, hall⟩ := hnext.read hstart hblock
    have hrem := tail_suffix hterm
    split at h
    · rw [pure_eq_ok_iff] at h
      subst h
      refine ⟨hrem, ?_⟩
      simpa [Section.body] using hall
    · split at h
      · simp only [bind_eq_ok_iff, pure_eq_ok_iff] at h
        obtain ⟨_, _, more, hmore, rfl⟩ := h
        obtain ⟨hrem', hall'⟩ := ih hrem hmore
        refine ⟨hrem', ?_⟩
        intro body hbody
        rcases List.mem_cons.mp hbody with rfl | hbody
        · exact hall
        · exact hall' body hbody
      · simp only [bind_eq_ok_iff] at h
        obtain ⟨last, hlast, h⟩ := h
        obtain ⟨hterm', hall'⟩ := hnext.read hrem hlast
        split at h
        · rw [pure_eq_ok_iff] at h
          subst h
          refine ⟨tail_suffix hterm', ?_⟩
          simpa [Section.body] using ⟨hall, hall'⟩
        · exact absurd h failAt_ne_ok

theorem Faithful.cases (hnext : Faithful lines ctx next) {outer : Context} {opening n : Nat}
    {scope : Scope} {type : Ty} {start : List Line} {cases : Cases} (hstart : start <:+ lines)
    (h : Cases.readWithin outer next opening scope type n start = .ok cases) :
    cases.remaining <:+ lines ∧
      ∀ body ∈ cases.cases.map Section.body ++ cases.otherwise.toList,
        Everywhere (Produced lines) ⟨ctx, scope⟩ body := by
  induction n generalizing start cases with
  | zero => cases start <;> exact absurd h failAt_ne_ok
  | succ n ih =>
    cases start with
    | nil => exact absurd h failAt_ne_ok
    | cons line rest =>
      have hrest := tail_suffix hstart
      simp only [Cases.readWithin] at h
      split at h
      · rw [pure_eq_ok_iff] at h
        subst h
        exact ⟨hrest, by simp⟩
      · split at h
        · simp only [bind_eq_ok_iff, pure_eq_ok_iff] at h
          obtain ⟨_, _, block, hblock, more, hmore, rfl⟩ := h
          obtain ⟨hterm, hall⟩ := hnext.read hrest hblock
          obtain ⟨hrem, hall'⟩ := ih hterm hmore
          refine ⟨hrem, ?_⟩
          intro body hbody
          rcases List.mem_cons.mp hbody with rfl | hbody
          · exact hall
          · exact hall' body hbody
        · split at h
          · simp only [bind_eq_ok_iff] at h
            obtain ⟨block, hblock, h⟩ := h
            obtain ⟨hterm, hall⟩ := hnext.read hrest hblock
            split at h
            · rw [pure_eq_ok_iff] at h
              subst h
              exact ⟨tail_suffix hterm, by simpa using hall⟩
            · exact absurd h failAt_ne_ok
          · exact absurd h failAt_ne_ok

end Blocks

/-! ### Statements of several lines -/

theorem nested_eq_ok {limit line : Nat} {inner : Option Next} {next : Next}
    (h : nested limit line inner = .ok next) : inner = some next := by
  cases inner with
  | none => exact absurd h failAt_ne_ok
  | some found => simpa [nested] using h

section Statements

variable {lines rest : List Line} {ctx : Context} {inner : Option Next} {scope : Scope} {line : Nat}
  {step : Step}

/-- The claim about one compiled statement, apart from the statement itself. -/
def Opens (lines : List Line) (p : Place) (step : Step) : Prop :=
  step.remaining <:+ lines ∧ step.scope = step.statement.scopeAfter p.scope ∧
    ∀ body ∈ step.statement.blocks, Everywhere (Produced lines) (p.inside step.statement) body

theorem opens_of_ofBlock {p : Place} {block : Block} {make : List Statement → Statement}
    (hscope : ∀ b, (make b).scopeAfter p.scope = p.scope) (hblocks : ∀ b, (make b).blocks = [b])
    (hterm : block.terminator :: block.remaining <:+ lines)
    (hall : Everywhere (Produced lines) (p.inside (make block.statements)) block.statements) :
    Opens lines p (.ofBlock p.scope block make) := by
  refine ⟨tail_suffix hterm, (hscope _).symm, ?_⟩
  intro body hbody
  rw [show (Step.ofBlock p.scope block make).statement = make block.statements from rfl,
    hblocks] at hbody
  rw [List.mem_singleton.mp hbody]
  exact hall

theorem opens_forCount (hinner : ∀ next, inner = some next → Faithful lines ctx.looping next)
    (hrest : rest <:+ lines) {name count : List Char}
    (h : compileForCount ctx inner scope line rest name count = .ok step) :
    Opens lines ⟨ctx, scope⟩ step := by
  simp only [compileForCount, bind_eq_ok_iff, pure_eq_ok_iff] at h
  obtain ⟨_, _, next, hnext, test, _, block, hblock, rfl⟩ := h
  obtain ⟨hterm, hall⟩ := (hinner next (nested_eq_ok hnext)).read hrest hblock
  refine opens_of_ofBlock (fun _ => rfl) (fun _ => rfl) hterm ?_
  simpa only [Place.inside, Statement.bodyScope, Statement.bodyContext, Scope.add_lower] using hall

theorem opens_forEach (hinner : ∀ next, inner = some next → Faithful lines ctx.looping next)
    (hrest : rest <:+ lines) {name items : List Char}
    (h : compileForEach ctx inner scope line rest name items = .ok step) :
    Opens lines ⟨ctx, scope⟩ step := by
  simp only [compileForEach, bind_eq_ok_iff] at h
  obtain ⟨_, _, next, hnext, collection, _, h⟩ := h
  split at h
  · simp only [bind_eq_ok_iff, pure_eq_ok_iff] at h
    obtain ⟨element, _, block, hblock, rfl⟩ := h
    obtain ⟨hterm, hall⟩ := (hinner next (nested_eq_ok hnext)).read hrest hblock
    refine opens_of_ofBlock (fun _ => rfl) (fun _ => rfl) hterm ?_
    simpa only [Place.inside, Statement.bodyScope, Statement.bodyContext, Scope.add_lower]
      using hall
  · exact absurd h failAt_ne_ok

theorem opens_while (hinner : ∀ next, inner = some next → Faithful lines ctx.looping next)
    (hrest : rest <:+ lines) {test : List Char}
    (h : compileWhile ctx inner scope line rest test = .ok step) :
    Opens lines ⟨ctx, scope⟩ step := by
  simp only [compileWhile, bind_eq_ok_iff, pure_eq_ok_iff] at h
  obtain ⟨next, hnext, _, _, block, hblock, rfl⟩ := h
  obtain ⟨hterm, hall⟩ := (hinner next (nested_eq_ok hnext)).read hrest hblock
  exact opens_of_ofBlock (fun _ => rfl) (fun _ => rfl) hterm hall

theorem opens_delay (hinner : ∀ next, inner = some next → Faithful lines ctx.delaying next)
    (hrest : rest <:+ lines) {duration : List Char}
    (h : compileDelay ctx inner scope line rest duration = .ok step) :
    Opens lines ⟨ctx, scope⟩ step := by
  simp only [compileDelay, bind_eq_ok_iff, pure_eq_ok_iff] at h
  obtain ⟨next, hnext, _, _, block, hblock, rfl⟩ := h
  obtain ⟨hterm, hall⟩ := (hinner next (nested_eq_ok hnext)).read hrest hblock
  exact opens_of_ofBlock (fun _ => rfl) (fun _ => rfl) hterm hall

theorem opens_if (hinner : ∀ next, inner = some next → Faithful lines ctx next)
    (hrest : rest <:+ lines) {test : List Char}
    (h : compileIf ctx inner scope line rest test = .ok step) :
    Opens lines ⟨ctx, scope⟩ step := by
  simp only [compileIf, bind_eq_ok_iff, pure_eq_ok_iff] at h
  obtain ⟨next, hnext, _, _, chain, hchain, rfl⟩ := h
  obtain ⟨hrem, hall⟩ := (hinner next (nested_eq_ok hnext)).chain hrest hchain
  exact ⟨hrem, rfl, hall⟩

theorem opens_switch (hinner : ∀ next, inner = some next → Faithful lines ctx.switching next)
    (hrest : rest <:+ lines) {value : List Char}
    (h : compileSwitch ctx inner scope line rest value = .ok step) :
    Opens lines ⟨ctx, scope⟩ step := by
  simp only [compileSwitch, bind_eq_ok_iff, pure_eq_ok_iff] at h
  obtain ⟨next, hnext, _, _, cases, hcases, rfl⟩ := h
  obtain ⟨hrem, hall⟩ := (hinner next (nested_eq_ok hnext)).cases hrest hcases
  exact ⟨hrem, rfl, hall⟩

end Statements

end WorldScript
