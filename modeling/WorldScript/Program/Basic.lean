import WorldScript.Compile.Basic

/-! # Programs

A definition has a signature and a source; a program is what it compiles to. The parameters are the
scope in which the source is compiled. -/

namespace WorldScript

/-- What a program is made from. -/
structure Definition where
  name : String
  returns : Ty
  parameters : List (String × Ty)
  source : String

/-- A program that can be run any number of times. -/
structure Program where
  name : String
  returns : Ty
  /-- The parameters, with names in lower case. -/
  parameters : List (String × Ty)
  body : List Statement

namespace Definition

/-- Why a parameter cannot be added to those of the scope. -/
def parameterFault? (scope : Scope) (name : String) (type : Ty) : Option CompileFault :=
  if !Name.isValid name then some (.invalidParameter name)
  else if Name.isReserved name then some (.reservedParameter name)
  else if scope.declares name then some (.duplicateParameter name)
  else if type.isVoid then some (.voidParameter name)
  else none

/-- The scope with some more parameters. -/
def addParameters (scope : Scope) : List (String × Ty) → Compile Scope
  | [] => .ok scope
  | (name, type) :: rest =>
    match parameterFault? scope name type with
    | some fault => failAt 0 fault
    | none => addParameters (scope.add name type) rest

/-- The program of a definition. -/
def compile (library : Library) (settings : Settings) (d : Definition) : Compile Program := do
  let scope ← addParameters .empty d.parameters
  let context : Context := { library, settings, returns := d.returns }
  let body ← compileBody context scope (Source.lines d.source)
  return ⟨d.name, d.returns, d.parameters.map fun (name, type) => (Text.lower name, type), body⟩

end Definition

end WorldScript
