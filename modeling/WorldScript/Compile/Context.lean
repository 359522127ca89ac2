import WorldScript.Compile.Error
import WorldScript.Name
import WorldScript.Settings
import WorldScript.Source

/-! # Where a statement stands

A context says what the statements of a block may do, and compiles the expressions in them. -/

namespace WorldScript

/-- What is known about the place of a statement, its depth apart. -/
structure Context where
  library : Library
  settings : Settings
  /-- What the program returns. -/
  returns : Ty
  inLoop : Bool := false
  inSwitch : Bool := false
  inDelay : Bool := false

/-- The result of compiling something. -/
abbrev Compile := Except CompileError

/-- The failure of a line. -/
def failAt {α : Type} (line : Nat) (fault : CompileFault) : Compile α := .error ⟨line, fault⟩

namespace Context

/-- The context inside of a loop. -/
def looping (ctx : Context) : Context := { ctx with inLoop := true }

/-- The context inside of a switch. -/
def switching (ctx : Context) : Context := { ctx with inSwitch := true }

/-- The context inside of a delayed block, which is left on its own. -/
def delaying (ctx : Context) : Context :=
  { ctx with returns := .void, inLoop := false, inSwitch := false, inDelay := true }

/-- The expression that a text is. -/
def expression (ctx : Context) (scope : Scope) (line : Nat) (text : List Char) : Compile Checked :=
  match Checked.ofText ctx.library scope (String.ofList (Text.trim text)) with
  | .ok e => .ok e
  | .error e => failAt line (.expression e)

/-- The expression that a text is, which must fit the expected type. -/
def typed (ctx : Context) (scope : Scope) (line : Nat) (role : Role) (expected : Ty)
    (text : List Char) : Compile Checked := do
  let e ← ctx.expression scope line text
  if expected.accepts e.type then return e else failAt line (.wrongType role expected e.type)

end Context

/-- The type with a flag removed, which must be there. -/
def stripAt (line : Nat) (type flag : Ty) : Compile Ty :=
  match type.strip flag with
  | .ok t => .ok t
  | .error f => failAt line (.strip f)

/-- The name can be given to a new variable. -/
def checkNewName (scope : Scope) (line : Nat) (name : String) : Compile Unit :=
  if !Name.isValid name then failAt line (.invalidName name)
  else if Name.isReserved name then failAt line (.reservedName name)
  else if scope.declares name then failAt line (.alreadyDeclared name)
  else .ok ()

/-- The type of a variable that must be visible. -/
def lookupAt (scope : Scope) (line : Nat) (name : String) : Compile Ty :=
  match scope.lookup name with
  | some t => .ok t
  | none => failAt line (.undeclared name)

end WorldScript
