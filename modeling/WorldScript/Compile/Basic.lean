import WorldScript.Compile.Block

/-! # Compiling lines

`compileNext` compiles the statement at the start of some lines. A block may be opened only while
there is a *budget* of nesting left, and its statements are compiled with one unit less of it.
`compileSequence` compiles all lines, `compileBody` those of a whole program. -/

namespace WorldScript

/-- The result of a statement of one line. -/
def Step.single (scope : Scope) (line : Line) (rest : List Line) (s : Compile Statement) :
    Compile Step := do
  return ⟨← s, rest, scope, line.number⟩

/-- The result of a statement that ends with a block. -/
def Step.ofBlock (scope : Scope) (block : Block) (s : List Statement → Statement) : Step :=
  ⟨s block.statements, block.remaining, scope, block.terminator.number⟩

/-- The compilation of the statements of a block, if there is a budget for one more. -/
def nested (limit : Nat) (line : Nat) (inner : Option Next) : Compile Next :=
  match inner with
  | some next => .ok next
  | none => failAt line (.tooDeep limit)

/-- `for (name : count)` -/
def compileForCount (ctx : Context) (inner : Option Next) (scope : Scope) (line : Nat)
    (rest : List Line) (name count : List Char) : Compile Step := do
  let name := String.ofList name
  checkNewName scope line name
  let next ← nested ctx.settings.maxNesting line inner
  let count ← ctx.typed scope line .loopCount .number count
  let block ← Block.readEnd next "for" line (scope.add name .number) rest
  return .ofBlock scope block (.forCount line (Text.lower name) count)

/-- `foreach (name in items)` -/
def compileForEach (ctx : Context) (inner : Option Next) (scope : Scope) (line : Nat)
    (rest : List Line) (name items : List Char) : Compile Step := do
  let name := String.ofList name
  checkNewName scope line name
  let next ← nested ctx.settings.maxNesting line inner
  let collection ← ctx.expression scope line items
  let type := collection.plainType
  if type.contains .collection then
    let element ← stripAt line type .collection
    let block ← Block.readEnd next "foreach" line (scope.add name element) rest
    return .ofBlock scope block (.forEach line (Text.lower name) element collection)
  else failAt line (.notCollection (String.ofList (Text.trim items)) type)

/-- `if (test)` -/
def compileIf (ctx : Context) (inner : Option Next) (scope : Scope) (line : Nat)
    (rest : List Line) (test : List Char) : Compile Step := do
  let next ← nested ctx.settings.maxNesting line inner
  let test ← ctx.typed scope line .condition .boolean test
  let chain ← Chain.read ctx next line scope test rest
  return ⟨.ifChain line chain.arms chain.otherwise, chain.remaining, scope, chain.terminator.number⟩

/-- `while (test)` -/
def compileWhile (ctx : Context) (inner : Option Next) (scope : Scope) (line : Nat)
    (rest : List Line) (test : List Char) : Compile Step := do
  let next ← nested ctx.settings.maxNesting line inner
  let test ← ctx.typed scope line .condition .boolean test
  let block ← Block.readEnd next "while" line scope rest
  return .ofBlock scope block (.whileLoop line test)

/-- `switch (value)` -/
def compileSwitch (ctx : Context) (inner : Option Next) (scope : Scope) (line : Nat)
    (rest : List Line) (value : List Char) : Compile Step := do
  let next ← nested ctx.settings.maxNesting line inner
  let value ← ctx.expression scope line value
  let cases ← Cases.read ctx next line scope value.type rest
  return ⟨.switch line value cases.cases cases.otherwise, cases.remaining, scope,
    cases.terminator.number⟩

/-- `delay (duration)` -/
def compileDelay (ctx : Context) (inner : Option Next) (scope : Scope) (line : Nat)
    (rest : List Line) (duration : List Char) : Compile Step := do
  let next ← nested ctx.settings.maxNesting line inner
  let duration ← ctx.typed scope line .delay .number duration
  let block ← Block.readEnd next "delay" line scope rest
  return .ofBlock scope block (.delay line duration)

/-- The statement at the start of a line of the given form, where `inner` compiles the statements
of a block in the given context. -/
def compileForm (ctx : Context) (inner : Context → Option Next) (scope : Scope) (line : Line)
    (rest : List Line) (form : LineForm) : Compile Step :=
  let n := line.number
  let single := Step.single scope line rest
  match form with
  | .declare name type initial => do
    let (s, t) ← Leaf.declare ctx scope n name type initial
    return ⟨s, rest, scope.add (Leaf.declaredName name) t, n⟩
  | .ifChain test => compileIf ctx (inner ctx) scope n rest test
  | .forCount name count => compileForCount ctx (inner ctx.looping) scope n rest name count
  | .forEach name items => compileForEach ctx (inner ctx.looping) scope n rest name items
  | .whileLoop test => compileWhile ctx (inner ctx.looping) scope n rest test
  | .switch value => compileSwitch ctx (inner ctx.switching) scope n rest value
  | .delay duration => compileDelay ctx (inner ctx.delaying) scope n rest duration
  | .breakOut => single (Leaf.breakOut ctx n)
  | .continueOn => single (Leaf.continueOn ctx n)
  | .returnWith value => single (Leaf.returnWith ctx scope n value)
  | .addItem name key item => single (Leaf.addItem ctx scope n name key item)
  | .addRange name items => single (Leaf.addRange ctx scope n name items)
  | .removeItem name item => single (Leaf.removeItem ctx scope n name item)
  | .removeAt name index => single (Leaf.removeAt ctx scope n name index)
  | .clearItems name => single (Leaf.clearItems scope n name)
  | .setItem name key item => single (Leaf.setItem ctx scope n name key item)
  | .removeKey name key => single (Leaf.removeKey ctx scope n name key)
  | .separator => failAt n (.strayLine line.text)
  | .compound name op value => single (Leaf.compound ctx scope n name op value)
  | .assign name value => single (Leaf.assign ctx scope n name value)
  | .call => single (Leaf.call ctx scope n line.text.toList)

/-- The statement at the start of some lines, where `inner` compiles the statements of a block. -/
def compileLine (ctx : Context) (inner : Context → Option Next) : Next := fun scope lines =>
  match lines with
  | [] => failAt 0 .endOfSource
  | line :: rest =>
    match LineForm.read? line.text.toList with
    | none => failAt line.number (.unrecognised line.text)
    | some form => compileForm ctx inner scope line rest form

/-- The statement at the start of some lines, with a budget of nesting. -/
def compileNext : Nat → Context → Next
  | 0, ctx => compileLine ctx fun _ => none
  | budget + 1, ctx => compileLine ctx fun inside => some (compileNext budget inside)

/-- At most `n` statements, which must take all lines. -/
def compileWithin (next : Next) : Nat → Scope → List Line → Compile (List Statement)
  | _, _, [] => .ok []
  | 0, _, line :: _ => failAt line.number (.unrecognised line.text)
  | n + 1, scope, line :: rest => do
    let step ← next scope (line :: rest)
    let more ← compileWithin next n step.scope step.remaining
    return step.statement :: more

/-- The statements of some lines, at the top of a program. -/
def compileSequence (ctx : Context) (scope : Scope) (lines : List Line) :
    Compile (List Statement) :=
  compileWithin (compileNext ctx.settings.maxNesting ctx) lines.length scope lines

/-- The statements of a program. One that returns something must do so on every path; otherwise its
last line is to blame. -/
def compileBody (ctx : Context) (scope : Scope) (lines : List Line) : Compile (List Statement) := do
  let statements ← compileSequence ctx scope lines
  if !ctx.returns.isVoid && !Statement.returnsAll statements then
    failAt ((lines.getLast?.map (·.number)).getD 0) .missingReturn
  else return statements

end WorldScript
