import WorldScript.Compile.Context
import WorldScript.Statement.Form

/-! # Statements of one line

The compilation of the statements that open no block. Each function takes the pieces of the line
and gives the statement, or the first thing that is wrong with it. -/

namespace WorldScript.Leaf

variable (ctx : Context) (scope : Scope) (line : Nat)

/-- The name of a declaration, without the `@`s in front of it. -/
def declaredName (name : List Char) : String := String.ofList (name.dropWhile (· = '@'))

/-- `var name as type = initial`. Gives also the type of the new variable. -/
def declare (name type : List Char) (initial : Option (List Char)) :
    Compile (Statement × Ty) := do
  let name := declaredName name
  checkNewName scope line name
  match Ty.read (String.ofList type) with
  | .error e => failAt line (.typeName e)
  | .ok type =>
    if type.isVoid then failAt line .voidVariable
    else
      match initial with
      | none => return (.declare line (Text.lower name) type none, type)
      | some text =>
        let value ← ctx.typed scope line (.initialValue name) type text
        return (.declare line (Text.lower name) type (some value), type)

/-- `name = value` -/
def assign (name value : List Char) : Compile Statement := do
  let name := String.ofList name
  let type ← lookupAt scope line name
  let value ← ctx.typed scope line (.assignedValue name) type value
  return .assign line (Text.lower name) value

/-- A compound assignment to a variable of the type, whose elements have type `element` if it is a
collection, can take the operand. The answer is `none` if no operand can be taken. -/
def compoundTakes? (op : CompoundOp) (type : Ty) (element : Option Ty) (operand : Ty) :
    Option Bool :=
  match op, element with
  | .add, some e => some (e.accepts operand || type.accepts operand)
  | .sub, some e => some (e.accepts operand)
  | _, some _ => none
  | op, none =>
    if Ty.number.accepts type then some (Ty.number.accepts operand)
    else if op = .add && Ty.text.accepts type then some (!operand.isVoid && !operand.isStructural)
    else none

/-- `name += value` and the like. -/
def compound (name : List Char) (op : CompoundOp) (value : List Char) : Compile Statement := do
  let name := String.ofList name
  let type ← lookupAt scope line name
  let value ← ctx.expression scope line value
  let element ←
    if type.contains .collection then some <$> stripAt line type .collection else pure none
  match compoundTakes? op type element value.type with
  | none => failAt line (.wrongOperator op name type)
  | some false => failAt line (.wrongOperand op name type value.type)
  | some true => return .compound line (Text.lower name) op value

/-- `break` -/
def breakOut : Compile Statement :=
  if ctx.settings.strictJumps && !ctx.inLoop && !ctx.inSwitch then failAt line .strayBreak
  else .ok .breakOut

/-- `continue` -/
def continueOn : Compile Statement :=
  if ctx.settings.strictJumps && !ctx.inLoop then failAt line .strayContinue
  else .ok .continueOn

/-- `return value` -/
def returnWith (value : Option (List Char)) : Compile Statement :=
  match value with
  | some text =>
    if ctx.inDelay then failAt line .delayReturns
    else if ctx.returns.isVoid then failAt line .nothingToReturn
    else do
      let value ← ctx.typed scope line .returnValue ctx.returns text
      return .returnWith line (some value)
  | none =>
    if !ctx.returns.isVoid && !ctx.inDelay then failAt line (.returnNeedsValue ctx.returns)
    else .ok (.returnWith line none)

/-! ### Changes of structural variables -/

/-- The type of a variable that must have one of the given shapes. -/
def target (shapes : List Ty) (wanted : String) (name : String) : Compile Ty := do
  let type := (← lookupAt scope line name).unmarked
  if shapes.contains type.structural then return type
  else failAt line (.wrongTarget name wanted type)

/-- `additem name item` and `additem name[key] item` -/
def addItem (name : List Char) (key : Option (List Char)) (item : List Char) :
    Compile Statement := do
  let name := String.ofList name
  match key with
  | none =>
    let type ← target scope line [.collection] "a collection" name
    let item ← ctx.typed scope line .item (← stripAt line type .collection) item
    return .change line (Text.lower name) (.add item)
  | some key =>
    let type ← target scope line [.groups] "a collection dictionary" name
    let key ← ctx.typed scope line .key .text key
    let item ← ctx.typed scope line .item (← stripAt line type .groups) item
    return .change line (Text.lower name) (.addKeyed key item)

/-- `addrange name items` -/
def addRange (name items : List Char) : Compile Statement := do
  let name := String.ofList name
  let type ← target scope line [.collection] "a collection" name
  let items ← ctx.typed scope line .range type items
  return .change line (Text.lower name) (.addRange items)

/-- `removeitem name item` -/
def removeItem (name item : List Char) : Compile Statement := do
  let name := String.ofList name
  let type ← target scope line [.collection] "a collection" name
  let item ← ctx.typed scope line .item (← stripAt line type .collection) item
  return .change line (Text.lower name) (.remove item)

/-- `removeat name index` -/
def removeAt (name index : List Char) : Compile Statement := do
  let name := String.ofList name
  let _ ← target scope line [.collection] "a collection" name
  let index ← ctx.typed scope line .index .number index
  return .change line (Text.lower name) (.removeAt index)

/-- `clearitems name` -/
def clearItems (name : List Char) : Compile Statement := do
  let name := String.ofList name
  let _ ← target scope line [.collection, .dictionary, .groups] "a collection or dictionary" name
  return .change line (Text.lower name) .clear

/-- `setitem name[key] = item` -/
def setItem (name key item : List Char) : Compile Statement := do
  let name := String.ofList name
  let type ← target scope line [.dictionary, .collection] "a dictionary or collection" name
  let (keyType, shape) :=
    if type.contains .dictionary then (Ty.text, Ty.dictionary) else (Ty.number, Ty.collection)
  let key ← ctx.typed scope line .key keyType key
  let item ← ctx.typed scope line .item (← stripAt line type shape) item
  return .change line (Text.lower name) (.set key item)

/-- `removekey name key` -/
def removeKey (name key : List Char) : Compile Statement := do
  let name := String.ofList name
  let _ ← target scope line [.dictionary, .groups] "a dictionary" name
  let key ← ctx.typed scope line .key .text key
  return .change line (Text.lower name) (.removeKey key)

/-- A call on a line of its own, given by the whole line. -/
def call (text : List Char) : Compile Statement := do
  let e ← ctx.expression scope line text
  return .call line e

end WorldScript.Leaf
