import WorldScript.Compile.Leaf

/-! # Statements of several lines

A block is read line by line until a line ends it. How the statements inside are compiled is a
parameter of the functions here: `Next` compiles one statement at the start of some lines. -/

namespace WorldScript

/-- A statement, the lines after it, the scope after it and the number of its last line. -/
structure Step where
  statement : Statement
  remaining : List Line
  scope : Scope
  line : Nat

/-- Compiles the statement at the start of some lines. -/
abbrev Next := Scope → List Line → Compile Step

/-- The statements of a block, the line that ended it, and the lines after that. -/
structure Block where
  statements : List Statement
  terminator : Line
  remaining : List Line

namespace Block

/-- At most `n` statements and the line that ends them. Running out of lines is blamed on the line
that opened the block. -/
def readWithin (next : Next) (isEnd : List Char → Bool) (unterminated : CompileError) :
    Nat → Scope → List Line → Compile Block
  | _, _, [] => .error unterminated
  | 0, _, _ :: _ => .error unterminated
  | n + 1, scope, line :: rest =>
    if isEnd line.text.toList then .ok ⟨[], line, rest⟩
    else do
      let step ← next scope (line :: rest)
      let block ← readWithin next isEnd unterminated n step.scope step.remaining
      return { block with statements := step.statement :: block.statements }

/-- The statements up to a line that ends them. A statement takes at least one line. -/
def read (next : Next) (isEnd : List Char → Bool) (word : String) (opening : Nat) (scope : Scope)
    (lines : List Line) : Compile Block :=
  readWithin next isEnd ⟨opening, .unterminated word⟩ (lines.length + 1) scope lines

/-- A block that ends with `end` and its keyword. -/
def readEnd (next : Next) (word : String) (opening : Nat) (scope : Scope) (lines : List Line) :
    Compile Block :=
  read next (LineForm.isEnd word) word opening scope lines

end Block

/-! ### `if` -/

/-- The arms of an `if`, its `else`, the last line, and the lines after that. -/
structure Chain where
  arms : List Section
  otherwise : Option (List Statement)
  terminator : Line
  remaining : List Line

namespace Chain

/-- At most `n` arms, of the first of which the condition is known. -/
def readWithin (ctx : Context) (next : Next) (opening : Nat) (scope : Scope) :
    Nat → Nat → Checked → List Line → Compile Chain
  | 0, _, _, _ => failAt opening (.unterminated "if")
  | n + 1, line, test, lines => do
    let block ← Block.read next LineForm.isArmEnd "if" opening scope lines
    let arm : Section := .mk line test block.statements
    let text := block.terminator.text.toList
    if LineForm.isEnd "if" text then return ⟨[arm], none, block.terminator, block.remaining⟩
    else
      match LineForm.elseIf? text with
      | some test =>
        let line := block.terminator.number
        let test ← ctx.typed scope line .condition .boolean test
        let chain ← readWithin ctx next opening scope n line test block.remaining
        return { chain with arms := arm :: chain.arms }
      | none =>
        let last ← Block.read next LineForm.isArmEnd "if" opening scope block.remaining
        if LineForm.isEnd "if" last.terminator.text.toList then
          return ⟨[arm], some last.statements, last.terminator, last.remaining⟩
        else failAt last.terminator.number (.afterElse last.terminator.text)

/-- The arms of an `if`. Each takes at least one line. -/
def read (ctx : Context) (next : Next) (opening : Nat) (scope : Scope) (test : Checked)
    (lines : List Line) : Compile Chain :=
  readWithin ctx next opening scope (lines.length + 1) opening test lines

end Chain

/-! ### `switch` -/

/-- The cases of a `switch`, its `default`, the last line, and the lines after that. -/
structure Cases where
  cases : List Section
  otherwise : Option (List Statement)
  terminator : Line
  remaining : List Line

namespace Cases

/-- The value of a case, which must be able to match. -/
def caseValue (ctx : Context) (scope : Scope) (line : Nat) (switchType : Ty) (text : List Char) :
    Compile Checked := do
  let value ← ctx.expression scope line text
  if switchType.accepts value.type || value.type.accepts switchType then return value
  else failAt line (.neverMatches value.type switchType)

/-- At most `n` sections of a switch on a value of the given type. -/
def readWithin (ctx : Context) (next : Next) (opening : Nat) (scope : Scope) (switchType : Ty) :
    Nat → List Line → Compile Cases
  | _, [] => failAt opening (.unterminated "switch")
  | 0, _ :: _ => failAt opening (.unterminated "switch")
  | n + 1, line :: rest => do
    let text := line.text.toList
    if LineForm.isEnd "switch" text then return ⟨[], none, line, rest⟩
    else
      match LineForm.case? text with
      | some value =>
        let value ← caseValue ctx scope line.number switchType value
        let block ← Block.read next LineForm.isSectionEnd "switch" opening scope rest
        let more ← readWithin ctx next opening scope switchType n
          (block.terminator :: block.remaining)
        return { more with cases := .mk line.number value block.statements :: more.cases }
      | none =>
        if Text.isKeyword "default" text then
          let block ← Block.read next LineForm.isSectionEnd "switch" opening scope rest
          if LineForm.isEnd "switch" block.terminator.text.toList then
            return ⟨[], some block.statements, block.terminator, block.remaining⟩
          else failAt block.terminator.number .defaultNotLast
        else failAt line.number .expectedSection

/-- The sections of a `switch`. Each takes at least one line. -/
def read (ctx : Context) (next : Next) (opening : Nat) (scope : Scope) (switchType : Ty)
    (lines : List Line) : Compile Cases :=
  readWithin ctx next opening scope switchType (lines.length + 1) lines

end Cases

end WorldScript
