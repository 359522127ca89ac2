import WorldScript.Expr.Checked
import WorldScript.Expr.Parse
import WorldScript.Scope

/-! # Checking expressions

`Tree.check` resolves the variables of an expression in a scope and its calls in a library, and
finds the type of every part. The first part that has none is the error. -/

namespace WorldScript

/-- The ways in which an expression has no type. -/
inductive TypeError
  | undeclared (name : String)
  | cannotNegate (type : Ty)
  | cannotInvert (type : Ty)
  | cannotApply (op : BinaryOp) (left right : Ty)
  | cannotIndex (type : Ty)
  | wrongKey (target key actual : Ty)
  | resolve (e : Library.ResolveError)
  | strip (f : Ty.StripFault)

/-- What is told about an expression without a type. -/
def TypeError.message : TypeError → String
  | undeclared name => s!"variable {name} is not declared"
  | cannotNegate type => "cannot negate " ++ type.describe
  | cannotInvert type => "cannot apply not to " ++ type.describe
  | cannotApply op left right =>
    "cannot apply " ++ op.symbol ++ " to " ++ left.describe ++ " and " ++ right.describe
  | cannotIndex type => "cannot index a value of type " ++ type.describe
  | wrongKey target key actual =>
    target.describe ++ " must be indexed by " ++ key.describe ++ ", not " ++ actual.describe
  | resolve e => e.message
  | strip f => f.message

namespace Ty

/-- Values of the type can be joined to a text. -/
def isPlain (t : Ty) : Bool := !t.isStructural && !t.isVoid

/-- The type of the key of a structural type, and the type of what is found under it. -/
def indexing? (t : Ty) : Option (Ty × Except StripFault Ty) :=
  if t.contains collection then some (number, t.strip collection)
  else if t.contains dictionary then some (text, t.strip dictionary)
  else if t.contains groups then some (text, (t.strip groups).map (· ||| collection))
  else none

end Ty

namespace Checked

/-- An operator applied to one operand. -/
def ofUnary (op : UnaryOp) (e : Checked) : Except TypeError Checked :=
  match op with
  | .negate => if e.plainType = .number then .ok (.negate e) else .error (.cannotNegate e.plainType)
  | .not => if e.plainType = .boolean then .ok (.not e) else .error (.cannotInvert e.plainType)

/-- An operator applied to two operands. -/
def ofBinary (op : BinaryOp) (l r : Checked) : Except TypeError Checked :=
  let lt := l.plainType
  let rt := r.plainType
  let numbers : Bool := lt = .number && rt = .number
  let booleans : Bool := lt = .boolean && rt = .boolean
  let joins : Bool := (lt = .text && rt.isPlain) || (rt = .text && lt.isPlain)
  let ordered : Bool := numbers || (lt = .text && rt = .text)
  let comparable : Bool := lt.accepts rt || rt.accepts lt
  let only (ok : Bool) (e : Checked) : Except TypeError Checked :=
    if ok then .ok e else .error (.cannotApply op lt rt)
  match op with
  | .add => if numbers then .ok (.arithmetic .add l r) else only joins (.concat l r)
  | .sub => only numbers (.arithmetic .sub l r)
  | .mul => only numbers (.arithmetic .mul l r)
  | .div => only numbers (.arithmetic .div l r)
  | .rem => only numbers (.arithmetic .rem l r)
  | .equal => only comparable (.compare .equal l r)
  | .unequal => only comparable (.compare .unequal l r)
  | .less => only ordered (.compare .less l r)
  | .atMost => only ordered (.compare .atMost l r)
  | .greater => only ordered (.compare .greater l r)
  | .atLeast => only ordered (.compare .atLeast l r)
  | .and => only booleans (.and l r)
  | .or => only booleans (.or l r)

/-- A structural value with a key in brackets. -/
def ofIndex (target key : Checked) : Except TypeError Checked :=
  match target.plainType.indexing? with
  | none => .error (.cannotIndex target.plainType)
  | some (_, .error f) => .error (.strip f)
  | some (keyType, .ok type) =>
    if keyType.accepts key.plainType then .ok (.index target key type)
    else .error (.wrongKey target.plainType keyType key.plainType)

end Checked

namespace Tree

mutual

/-- The expression with its names resolved. -/
def check (lib : Library) (scope : Scope) : Tree → Except TypeError Checked
  | number n => .ok (.literal (.number n))
  | text s => .ok (.literal (.text s))
  | boolean b => .ok (.literal (.boolean b))
  | var name =>
    match scope.lookup name with
    | some type => .ok (.var (Text.lower name) type)
    | none => .error (.undeclared name)
  | unary op t => do Checked.ofUnary op (← check lib scope t)
  | binary op l r => do
    let l ← check lib scope l
    let r ← check lib scope r
    Checked.ofBinary op l r
  | index t k => do
    let t ← check lib scope t
    let k ← check lib scope k
    Checked.ofIndex t k
  | call name args => do
    let args ← checkAll lib scope args
    match lib.resolve name (args.map (·.type)) with
    | .ok f => return .call f args
    | .error e => .error (.resolve e)

/-- The expressions with their names resolved, from the first on. -/
def checkAll (lib : Library) (scope : Scope) : List Tree → Except TypeError (List Checked)
  | [] => .ok []
  | t :: ts => do
    let t ← check lib scope t
    let ts ← checkAll lib scope ts
    return t :: ts

end

end Tree

/-- The ways in which a text is not an expression with a type. -/
inductive ExprError
  | read (e : Tree.ReadError)
  | type (e : TypeError)

/-- What is told about a text that is not an expression with a type. -/
def ExprError.message : ExprError → String
  | read e => e.message
  | type e => e.message

/-- The checked expression that a text is. -/
def Checked.ofText (lib : Library) (scope : Scope) (s : String) : Except ExprError Checked :=
  match Tree.read s with
  | .error e => .error (.read e)
  | .ok t => (t.check lib scope).mapError .type

end WorldScript
