import WorldScript.Proofs.Compile.Loops

/-! # What a line asks for

The first line of a statement decides how the compiler goes on: the line is the whole statement, or
a block follows up to its `end`, or the arms of an `if`, or the sections of a `switch`. What the
line asks for is its *head*. It depends on the context, the scope and the line, on whether one more
block may be opened, and on nothing that comes after the line. In the same way a line between two
parts of an `if` or a `switch` is a *divider*.

* `compileNext_cons`: the compiler finds the head of the first line and then reads what it asks for.
* `Chain.readWithin_cons`, `Cases.readWithin_cons`: arms and sections are read from divider to
  divider. -/

namespace WorldScript

/-- What the first line of a statement asks for. -/
inductive Head
  /-- Nothing: the line is the statement. -/
  | leaf (statement : Statement) (after : Scope)
  /-- A block that ends with `end` and the keyword. -/
  | block (word : String) (inside : Context) (scope : Scope) (make : List Statement → Statement)
  /-- The arms of an `if`. -/
  | arms (test : Checked)
  /-- The sections of a `switch`. -/
  | sections (value : Checked)

/-- One more block may be opened. -/
def checkRoom (room : Bool) (limit line : Nat) : Compile Unit :=
  if room then .ok () else failAt line (.tooDeep limit)

namespace Head

/-- The head of a statement of one line that declares nothing. -/
def ofLeaf (scope : Scope) (s : Compile Statement) : Compile Head := do
  return .leaf (← s) scope

/-- The head of a line of the given form. -/
def ofForm (ctx : Context) (room : Bool) (scope : Scope) (line : Line) (form : LineForm) :
    Compile Head :=
  let n := line.number
  let limit := ctx.settings.maxNesting
  match form with
  | .declare name type initial => do
    let (s, t) ← Leaf.declare ctx scope n name type initial
    return .leaf s (scope.add (Leaf.declaredName name) t)
  | .ifChain test => do
    checkRoom room limit n
    return .arms (← ctx.typed scope n .condition .boolean test)
  | .forCount name count => do
    let name := String.ofList name
    checkNewName scope n name
    checkRoom room limit n
    let count ← ctx.typed scope n .loopCount .number count
    return .block "for" ctx.looping (scope.add name .number) (.forCount n (Text.lower name) count)
  | .forEach name items => do
    let name := String.ofList name
    checkNewName scope n name
    checkRoom room limit n
    let collection ← ctx.expression scope n items
    let type := collection.plainType
    if type.contains .collection then
      let element ← stripAt n type .collection
      return .block "foreach" ctx.looping (scope.add name element)
        (.forEach n (Text.lower name) element collection)
    else failAt n (.notCollection (String.ofList (Text.trim items)) type)
  | .whileLoop test => do
    checkRoom room limit n
    let test ← ctx.typed scope n .condition .boolean test
    return .block "while" ctx.looping scope (.whileLoop n test)
  | .switch value => do
    checkRoom room limit n
    return .sections (← ctx.expression scope n value)
  | .delay duration => do
    checkRoom room limit n
    let duration ← ctx.typed scope n .delay .number duration
    return .block "delay" ctx.delaying scope (.delay n duration)
  | .breakOut => ofLeaf scope (Leaf.breakOut ctx n)
  | .continueOn => ofLeaf scope (Leaf.continueOn ctx n)
  | .returnWith value => ofLeaf scope (Leaf.returnWith ctx scope n value)
  | .addItem name key item => ofLeaf scope (Leaf.addItem ctx scope n name key item)
  | .addRange name items => ofLeaf scope (Leaf.addRange ctx scope n name items)
  | .removeItem name item => ofLeaf scope (Leaf.removeItem ctx scope n name item)
  | .removeAt name index => ofLeaf scope (Leaf.removeAt ctx scope n name index)
  | .clearItems name => ofLeaf scope (Leaf.clearItems scope n name)
  | .setItem name key item => ofLeaf scope (Leaf.setItem ctx scope n name key item)
  | .removeKey name key => ofLeaf scope (Leaf.removeKey ctx scope n name key)
  | .separator => failAt n (.strayLine line.text)
  | .compound name op value => ofLeaf scope (Leaf.compound ctx scope n name op value)
  | .assign name value => ofLeaf scope (Leaf.assign ctx scope n name value)
  | .call => ofLeaf scope (Leaf.call ctx scope n line.text.toList)

/-- The head of a line. -/
def ofLine (ctx : Context) (room : Bool) (scope : Scope) (line : Line) : Compile Head :=
  match LineForm.read? line.text.toList with
  | none => failAt line.number (.unrecognised line.text)
  | some form => ofForm ctx room scope line form

/-- The statement of a head, where `next` compiles the statements of its blocks. -/
def read (ctx : Context) (next : Context → Next) (scope : Scope) (line : Line)
    (rest : List Line) : Head → Compile Step
  | leaf statement after => .ok ⟨statement, rest, after, line.number⟩
  | block word inside bodyScope make => do
    let block ← Block.readEnd (next inside) word line.number bodyScope rest
    return .ofBlock scope block make
  | arms test => do
    let chain ← Chain.read ctx (next ctx) line.number scope test rest
    return ⟨.ifChain line.number chain.arms chain.otherwise, chain.remaining, scope,
      chain.terminator.number⟩
  | sections value => do
    let cases ← Cases.read ctx (next ctx.switching) line.number scope value.type rest
    return ⟨.switch line.number value cases.cases cases.otherwise, cases.remaining, scope,
      cases.terminator.number⟩

end Head

/-- The heads and what they ask for, form by form. -/
theorem compileForm_eq_head (ctx : Context) (room : Bool) (next : Context → Next) (scope : Scope)
    (line : Line) (rest : List Line) (form : LineForm) :
    compileForm ctx (fun inside => if room then some (next inside) else none) scope line rest form =
      Head.ofForm ctx room scope line form >>= Head.read ctx next scope line rest := by
  have hleaf : ∀ s : Compile Statement, Step.single scope line rest s =
      Head.ofLeaf scope s >>= Head.read ctx next scope line rest := by
    intro s
    cases s <;> rfl
  have hroom : ∀ {α : Type} (n : Nat) (k : Next → Compile α) (k' : Unit → Compile α)
      (inside : Context), (∀ found, found = next inside → k found = k' ()) →
      nested ctx.settings.maxNesting n (if room then some (next inside) else none) >>= k =
        checkRoom room ctx.settings.maxNesting n >>= k' := by
    intro α n k k' inside h
    cases room with
    | true => exact h _ rfl
    | false => rfl
  cases form with
  | declare name type initial =>
    simp only [compileForm, Head.ofForm, bind_assoc, pure_bind]
    rfl
  | ifChain test =>
    simp only [compileForm, compileIf, Head.ofForm, bind_assoc, pure_bind]
    refine hroom _ _ _ _ ?_
    rintro _ rfl
    rfl
  | forCount name count =>
    simp only [compileForm, compileForCount, Head.ofForm, bind_assoc, pure_bind]
    refine bind_congr fun _ => hroom _ _ _ _ ?_
    rintro _ rfl
    rfl
  | forEach name items =>
    simp only [compileForm, compileForEach, Head.ofForm, bind_assoc]
    refine bind_congr fun _ => hroom _ _ _ _ ?_
    rintro _ rfl
    refine bind_congr fun collection => ?_
    split
    · simp only [bind_assoc, pure_bind]
      rfl
    · rfl
  | whileLoop test =>
    simp only [compileForm, compileWhile, Head.ofForm, bind_assoc, pure_bind]
    refine hroom _ _ _ _ ?_
    rintro _ rfl
    rfl
  | switch value =>
    simp only [compileForm, compileSwitch, Head.ofForm, bind_assoc, pure_bind]
    refine hroom _ _ _ _ ?_
    rintro _ rfl
    rfl
  | delay duration =>
    simp only [compileForm, compileDelay, Head.ofForm, bind_assoc, pure_bind]
    refine hroom _ _ _ _ ?_
    rintro _ rfl
    rfl
  | separator => rfl
  | breakOut => exact hleaf _
  | continueOn => exact hleaf _
  | returnWith value => exact hleaf _
  | addItem name key item => exact hleaf _
  | addRange name items => exact hleaf _
  | removeItem name item => exact hleaf _
  | removeAt name index => exact hleaf _
  | clearItems name => exact hleaf _
  | setItem name key item => exact hleaf _
  | removeKey name key => exact hleaf _
  | compound name op value => exact hleaf _
  | assign name value => exact hleaf _
  | call => exact hleaf _

/-- There is room for one more block as long as some budget is left. -/
def hasRoom (budget : Nat) : Bool := budget != 0

/-- **A statement is compiled by its head.** -/
theorem compileNext_cons (budget : Nat) (ctx : Context) (scope : Scope) (line : Line)
    (rest : List Line) :
    compileNext budget ctx scope (line :: rest) =
      Head.ofLine ctx (hasRoom budget) scope line >>=
        Head.read ctx (compileNext (budget - 1)) scope line rest := by
  have hline : ∀ (room : Bool) (next : Context → Next) (inner : Context → Option Next),
      (inner = fun inside => if room then some (next inside) else none) →
      compileLine ctx inner scope (line :: rest) =
        Head.ofLine ctx room scope line >>= Head.read ctx next scope line rest := by
    rintro room next inner rfl
    simp only [compileLine, Head.ofLine]
    cases LineForm.read? line.text.toList with
    | none => rfl
    | some form => exact compileForm_eq_head ctx room next scope line rest form
  cases budget with
  | zero => exact hline false _ _ rfl
  | succ budget => exact hline true (compileNext budget) _ rfl

theorem Head.eq_leaf_of_ofLeaf {scope : Scope} {s : Compile Statement} {head : Head}
    (h : ofLeaf scope s = .ok head) : ∃ statement after, head = .leaf statement after := by
  simp only [ofLeaf, bind_eq_ok_iff, pure_eq_ok_iff] at h
  obtain ⟨statement, _, rfl⟩ := h
  exact ⟨statement, scope, rfl⟩

/-- Without room for a block, only lines that ask for nothing have a head. -/
theorem Head.eq_leaf_of_ofLine {ctx : Context} {scope : Scope} {line : Line} {head : Head}
    (h : ofLine ctx false scope line = .ok head) : ∃ s after, head = .leaf s after := by
  have hroom : ∀ {α : Type} {limit n : Nat} {k : Unit → Compile α} {a : α},
      checkRoom false limit n >>= k ≠ .ok a := by
    intro α limit n k a
    exact failAt_ne_ok
  unfold ofLine at h
  split at h
  · exact absurd h failAt_ne_ok
  · rename_i form _
    cases form with
    | declare name type initial =>
      simp only [ofForm, bind_eq_ok_iff, pure_eq_ok_iff] at h
      obtain ⟨⟨s, t⟩, _, rfl⟩ := h
      exact ⟨s, _, rfl⟩
    | forCount name count =>
      simp only [ofForm, bind_eq_ok_iff (x := checkNewName _ _ _)] at h
      obtain ⟨_, _, h⟩ := h
      exact absurd h hroom
    | forEach name items =>
      simp only [ofForm, bind_eq_ok_iff (x := checkNewName _ _ _)] at h
      obtain ⟨_, _, h⟩ := h
      exact absurd h hroom
    | ifChain test => exact absurd h hroom
    | whileLoop test => exact absurd h hroom
    | switch value => exact absurd h hroom
    | delay duration => exact absurd h hroom
    | separator => exact absurd h failAt_ne_ok
    | _ => exact eq_leaf_of_ofLeaf h

/-! ### Dividers -/

/-- What a line between the parts of an `if` or a `switch` does. -/
inductive Divider
  /-- It ends the statement. -/
  | finish
  /-- It begins a part with a guard. -/
  | guard (e : Checked)
  /-- It begins the part without a guard. -/
  | last

namespace Divider

/-- The divider that ends an arm of an `if`. -/
def ofArm (ctx : Context) (scope : Scope) (line : Line) : Compile Divider :=
  if LineForm.isEnd "if" line.text.toList then .ok finish
  else
    match LineForm.elseIf? line.text.toList with
    | some test => return guard (← ctx.typed scope line.number .condition .boolean test)
    | none => .ok last

/-- The divider that a line inside of a `switch` must be. -/
def ofSection (ctx : Context) (scope : Scope) (switchType : Ty) (line : Line) : Compile Divider :=
  if LineForm.isEnd "switch" line.text.toList then .ok finish
  else
    match LineForm.case? line.text.toList with
    | some value => return guard (← Cases.caseValue ctx scope line.number switchType value)
    | none =>
      if Text.isKeyword "default" line.text.toList then .ok last
      else failAt line.number .expectedSection

end Divider

/-- The line ends the blocks of the keyword; otherwise the fault is its own. -/
def checkEnd (word : String) (fault : CompileFault) (line : Line) : Compile Unit :=
  if LineForm.isEnd word line.text.toList then .ok () else failAt line.number fault

/-- The rest of a chain after the statements of an arm, which `more` reads from the next guard on. -/
def Chain.afterArm (next : Next) (opening : Nat) (scope : Scope)
    (more : Nat → Checked → List Line → Compile Chain) (arm : Section) (block : Block) :
    Divider → Compile Chain
  | .finish => return ⟨[arm], none, block.terminator, block.remaining⟩
  | .guard test => do
    let chain ← more block.terminator.number test block.remaining
    return { chain with arms := arm :: chain.arms }
  | .last => do
    let last ← Block.read next LineForm.isArmEnd "if" opening scope block.remaining
    checkEnd "if" (.afterElse last.terminator.text) last.terminator
    return ⟨[arm], some last.statements, last.terminator, last.remaining⟩

theorem Chain.readWithin_cons (ctx : Context) (next : Next) (opening : Nat) (scope : Scope)
    (n line : Nat) (test : Checked) (lines : List Line) :
    readWithin ctx next opening scope (n + 1) line test lines =
      Block.read next LineForm.isArmEnd "if" opening scope lines >>= fun block =>
        Divider.ofArm ctx scope block.terminator >>=
          afterArm next opening scope (readWithin ctx next opening scope n)
            (.mk line test block.statements) block := by
  simp only [readWithin]
  refine bind_congr fun block => ?_
  unfold Divider.ofArm
  by_cases hend : LineForm.isEnd "if" block.terminator.text.toList = true
  · rw [if_pos hend, if_pos hend]
    rfl
  · rw [if_neg hend, if_neg hend]
    cases LineForm.elseIf? block.terminator.text.toList with
    | some text =>
      simp only [bind_assoc, pure_bind]
      rfl
    | none =>
      refine bind_congr fun last => ?_
      unfold checkEnd
      by_cases hlast : LineForm.isEnd "if" last.terminator.text.toList = true
      · rw [if_pos hlast, if_pos hlast]
        rfl
      · rw [if_neg hlast, if_neg hlast]
        rfl

/-- The rest of the sections from a divider on, which `more` reads from the next divider on. -/
def Cases.fromDivider (next : Next) (opening : Nat) (scope : Scope)
    (more : List Line → Compile Cases) (line : Line) (rest : List Line) : Divider → Compile Cases
  | .finish => return ⟨[], none, line, rest⟩
  | .guard value => do
    let block ← Block.read next LineForm.isSectionEnd "switch" opening scope rest
    let others ← more (block.terminator :: block.remaining)
    return { others with cases := .mk line.number value block.statements :: others.cases }
  | .last => do
    let block ← Block.read next LineForm.isSectionEnd "switch" opening scope rest
    checkEnd "switch" .defaultNotLast block.terminator
    return ⟨[], some block.statements, block.terminator, block.remaining⟩

theorem Cases.readWithin_cons (ctx : Context) (next : Next) (opening : Nat) (scope : Scope)
    (switchType : Ty) (n : Nat) (line : Line) (rest : List Line) :
    readWithin ctx next opening scope switchType (n + 1) (line :: rest) =
      Divider.ofSection ctx scope switchType line >>=
        fromDivider next opening scope (readWithin ctx next opening scope switchType n) line
          rest := by
  simp only [readWithin]
  unfold Divider.ofSection
  by_cases hend : LineForm.isEnd "switch" line.text.toList = true
  · rw [if_pos hend, if_pos hend]
    rfl
  · rw [if_neg hend, if_neg hend]
    cases LineForm.case? line.text.toList with
    | some text =>
      simp only [bind_assoc, pure_bind]
      rfl
    | none =>
      simp only
      by_cases hdefault : Text.isKeyword "default" line.text.toList = true
      · rw [if_pos hdefault, if_pos hdefault]
        refine bind_congr fun block => ?_
        unfold checkEnd
        by_cases hlast : LineForm.isEnd "switch" block.terminator.text.toList = true
        · rw [if_pos hlast, if_pos hlast]
          rfl
        · rw [if_neg hlast, if_neg hlast]
          rfl
      · rw [if_neg hdefault, if_neg hdefault]
        rfl

end WorldScript
