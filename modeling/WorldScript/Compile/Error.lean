import WorldScript.Expr.Typing
import WorldScript.Statement.Basic
import WorldScript.Ty.Name

/-! # Errors of compilation

Every cause for which a source is refused, and the words for it. An error belongs to a line;
line `0` stands for the parameters, which have none. -/

namespace WorldScript

/-- What an expression of a statement is for. -/
inductive Role
  | initialValue (name : String)
  | assignedValue (name : String)
  | condition
  | loopCount
  | delay
  | returnValue
  | item
  | key
  | range
  | index
  deriving DecidableEq, Repr

/-- The name of a role in messages. -/
def Role.text : Role → String
  | initialValue name => s!"initial value of {name}"
  | assignedValue name => s!"value assigned to {name}"
  | condition => "condition"
  | loopCount => "loop count"
  | delay => "delay"
  | returnValue => "return value"
  | item => "item"
  | key => "key"
  | range => "range"
  | index => "index"

/-- The ways in which a source can be refused. -/
inductive CompileFault
  | endOfSource
  | unrecognised (line : String)
  | strayLine (line : String)
  | unterminated (block : String)
  | tooDeep (limit : Nat)
  | expression (e : ExprError)
  | wrongType (role : Role) (expected actual : Ty)
  | strip (f : Ty.StripFault)
  | typeName (e : Ty.NameError)
  | invalidName (name : String)
  | reservedName (name : String)
  | alreadyDeclared (name : String)
  | undeclared (name : String)
  | voidVariable
  | wrongOperator (op : CompoundOp) (name : String) (type : Ty)
  | wrongOperand (op : CompoundOp) (name : String) (type operand : Ty)
  | wrongTarget (name : String) (wanted : String) (type : Ty)
  | notCollection (text : String) (type : Ty)
  | afterElse (line : String)
  | defaultNotLast
  | neverMatches (caseType switchType : Ty)
  | expectedSection
  | strayBreak
  | strayContinue
  | delayReturns
  | nothingToReturn
  | returnNeedsValue (type : Ty)
  | missingReturn
  | invalidParameter (name : String)
  | reservedParameter (name : String)
  | duplicateParameter (name : String)
  | voidParameter (name : String)

/-- What is told about a refused source. -/
def CompileFault.message : CompileFault → String
  | endOfSource => "unexpected end of source"
  | unrecognised line => s!"unrecognised statement '{line}'"
  | strayLine line => s!"'{line}' without a matching block"
  | unterminated block => s!"unterminated {block} block: missing 'end {block}'"
  | tooDeep limit => s!"blocks nested deeper than {limit}"
  | expression e => e.message
  | wrongType role expected actual =>
    role.text ++ " must be " ++ expected.describe ++ ", got " ++ actual.describe
  | strip f => f.message
  | typeName e => e.message
  | invalidName name =>
    s!"invalid variable name '{name}': " ++
      "names start with a letter and use only letters, digits and '_'"
  | reservedName name => s!"'{name}' is a reserved word"
  | alreadyDeclared name => s!"variable {name} is already declared"
  | undeclared name => s!"variable {name} is not declared"
  | voidVariable => "variables cannot be declared as Void"
  | wrongOperator op name type =>
    "operator " ++ op.symbol ++ s!" cannot be applied to {name} (" ++ type.describe ++ ")"
  | wrongOperand op name type operand =>
    "operator " ++ op.symbol ++ s!" on {name} (" ++ type.describe ++ ") cannot take " ++
      operand.describe
  | wrongTarget name wanted type => s!"variable {name} is not {wanted} (" ++ type.describe ++ ")"
  | notCollection text type => s!"{text} is not a collection (" ++ type.describe ++ ")"
  | afterElse line => s!"'{line}' after else"
  | defaultNotLast => "default must be the last section of a switch"
  | neverMatches caseType switchType =>
    "case of type " ++ caseType.describe ++ " can never match a switch on " ++ switchType.describe
  | expectedSection => "expected 'case', 'default' or 'end switch'"
  | strayBreak => "break outside of a loop or switch"
  | strayContinue => "continue outside of a loop"
  | delayReturns => "a delay block cannot return a value"
  | nothingToReturn => "this prog does not return a value"
  | returnNeedsValue type => "return needs a value of type " ++ type.describe
  | missingReturn => "not all code paths return a value"
  | invalidParameter name => s!"invalid parameter name '{name}'"
  | reservedParameter name => s!"parameter name '{name}' is a reserved word"
  | duplicateParameter name => s!"duplicate parameter {name}"
  | voidParameter name => s!"parameter {name} cannot be Void"

/-- A fault and the line it belongs to. -/
structure CompileError where
  line : Nat
  fault : CompileFault

/-- An error with its line. -/
def CompileError.text (e : CompileError) : String := s!"line {e.line}: " ++ e.fault.message

end WorldScript
