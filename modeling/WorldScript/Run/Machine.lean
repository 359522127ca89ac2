import WorldScript.Expr.Eval
import WorldScript.Queue.Basic
import WorldScript.Statement.Basic

/-! # The state of a running program -/

namespace WorldScript

/-- A block that waits to be run, with the variables it will see. -/
structure DelayedBlock where
  program : String
  body : List Statement
  vars : Space

/-- What a statement can read and change. -/
structure Machine where
  world : World
  vars : Space
  /-- Where delayed blocks go, if they can go anywhere. -/
  queue : Option (Queue DelayedBlock)
  /-- The name of the program. -/
  program : String

/-- The state in which a waiting block begins. -/
def DelayedBlock.start (b : DelayedBlock) (q : Queue DelayedBlock) (w : World) : Machine :=
  ⟨w, b.vars, some q, b.program⟩

/-- The statements as a block that waits, with the variables of now. -/
def Machine.suspend (m : Machine) (body : List Statement) : DelayedBlock :=
  ⟨m.program, body, m.vars.snapshot⟩

/-- The ways in which a statement can fail. Values are given by their text. -/
inductive RunFault
  | eval (e : EvalError)
  | alreadyDeclared (name : String)
  | undeclared (name : String)
  | wrongOperator (op : CompoundOp) (type : Ty)
  | notBoolean (shown : String)
  | notCount (shown : String)
  | notCollection (shown : String)
  | notRange (shown : String)
  | keyNotText (shown : String)
  | outOfRange (index : Float) (size : Nat)
  | indexNotNumber (shown : String)
  | cannotChange (name : String) (type : Ty)
  | invalidDelay (shown : String)
  | noScheduler

/-- What is told about a failed statement. -/
def RunFault.message : RunFault → String
  | eval e => e.message
  | alreadyDeclared name => s!"variable {name} is already declared"
  | undeclared name => s!"variable {name} is not declared"
  | wrongOperator op type => "operator " ++ op.symbol ++ " cannot be applied to " ++ type.describe
  | notBoolean shown => s!"condition produced {shown}, not a Boolean"
  | notCount shown => s!"loop count {shown} is not a number"
  | notCollection shown => s!"{shown} is not a collection"
  | notRange shown => s!"addrange needs a collection, got {shown}"
  | keyNotText shown => s!"dictionary key must be text, got {shown}"
  | outOfRange index size => outOfRangeMessage index size
  | indexNotNumber shown => s!"index must be a number, got {shown}"
  | cannotChange name type =>
    s!"variable {name} holds " ++ type.describe ++ ", which this statement cannot change"
  | invalidDelay shown => s!"invalid delay of {shown} ms"
  | noScheduler => "delay requires a scheduler, but none was provided"

/-- A fault of a statement, or of a loop variable, which has no line. -/
inductive RunError
  | atLine (line : Nat) (fault : RunFault)
  | loopVariable (name : String)

/-- What is told about a failed run. -/
def RunError.message : RunError → String
  | atLine line fault => s!"line {line}: " ++ fault.message
  | loopVariable name => s!"loop variable {name} is already declared"

/-- How a statement ended. -/
inductive Signal
  /-- The next statement is to run. -/
  | normal
  /-- A loop or switch is left. -/
  | broke
  /-- The next round of a loop is to begin. -/
  | continued
  /-- The program is left. -/
  | returned
  | failed (e : RunError)

/-- The end of a statement and the state after it. -/
abbrev Ending := Signal × Machine

/-- A run that may not come to an end within its bound. -/
abbrev Run := Machine → Option Ending

namespace Machine

/-- The value of an expression, and the state after it. -/
def eval (m : Machine) (e : Checked) : Except EvalError Value × Machine :=
  let (r, w) := e.run m.vars m.world
  (r, { m with world := w })

/-- The text of a value. -/
def render (m : Machine) (v : Value) : String := m.world.heap.render v

/-- The end with a fault. -/
def fail (m : Machine) (line : Nat) (fault : RunFault) : Ending :=
  (.failed (.atLine line fault), m)

/-- The normal end. -/
def done (m : Machine) : Ending := (.normal, m)

/-- The state with another heap. -/
def withHeap (m : Machine) (h : Heap) : Machine := { m with world := { m.world with heap := h } }

/-- Goes on with the value of an expression, or fails on the line. -/
def withValue (m : Machine) (line : Nat) (e : Checked) (go : Value → Machine → Ending) : Ending :=
  match m.eval e with
  | (.ok v, m) => go v m
  | (.error e, m) => m.fail line (.eval e)

/-- Goes on with the value of a variable, or fails on the line. -/
def withVariable (m : Machine) (line : Nat) (name : String) (go : Value → Ending) : Ending :=
  match m.vars.value? name with
  | some v => go v
  | none => m.fail line (.undeclared name)

/-- Gives a variable another value, or fails on the line. -/
def store (m : Machine) (line : Nat) (name : String) (v : Value) : Ending :=
  match m.vars.set? name v with
  | some vars => { m with vars }.done
  | none => m.fail line (.undeclared name)

end Machine

/-- A run in a frame of its own. -/
def inFrame (run : Run) : Run := fun m =>
  (run { m with vars := m.vars.push }).map fun (signal, m) =>
    (signal, { m with vars := m.vars.pop })

end WorldScript
