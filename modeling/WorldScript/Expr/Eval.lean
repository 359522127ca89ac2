import WorldScript.Expr.Checked
import WorldScript.Heap.Equality
import WorldScript.Space

/-! # Evaluating expressions

Operands are evaluated from left to right. What a called function has done to the world stays done
when a later part of the expression fails. -/

namespace WorldScript

/-- The ways in which an evaluation can fail. Values are given by their text. -/
inductive EvalError
  | undeclared (name : String)
  | notNumber (shown : String)
  | notBoolean (shown : String)
  | divisionByZero
  | moduloByZero
  | unordered (left right : String)
  | outOfRange (index : Float) (size : Nat)
  | missingKey (key : String)
  | notIndexable (target key : String)
  | call (e : CallError)

/-- What is told about an index outside of a sequence. -/
def outOfRangeMessage (index : Float) (size : Nat) : String :=
  "index " ++ Number.text index ++ s!" is out of range for a collection of {size} item(s)"

/-- What is told about a failed evaluation. -/
def EvalError.message : EvalError → String
  | undeclared name => s!"variable {name} is not declared"
  | notNumber shown => s!"expected a number, got {shown}"
  | notBoolean shown => s!"expected a boolean, got {shown}"
  | divisionByZero => "division by zero"
  | moduloByZero => "modulo by zero"
  | unordered left right => s!"cannot order {left} and {right}"
  | outOfRange index size => outOfRangeMessage index size
  | missingKey key => s!"dictionary has no entry for key '{key}'"
  | notIndexable target key => s!"cannot index {target} with {key}"
  | call e => e.message

/-- A computation in the world that may fail. -/
abbrev Eval := ExceptT EvalError (StateM World)

namespace Eval

/-- The text of a value in the current heap. -/
def render (v : Value) : Eval String := do return (← get).heap.render v

/-- The number that a value must be. -/
def number (v : Value) : Eval Float := do
  match v.number? with
  | some n => return n
  | none => throw (.notNumber (← render v))

/-- The truth value that a value must be. -/
def boolean (v : Value) : Eval Bool := do
  match v.boolean? with
  | some b => return b
  | none => throw (.notBoolean (← render v))

/-- A new sequence. -/
def newList (items : List Value) : Eval Value := do
  let w ← get
  let (v, h) := w.heap.newList items
  set { w with heap := h }
  return v

/-- The answer of a function. -/
def call (f : Function) (args : List Value) : Eval Value := do
  let (answer, w) := f.run args (← get)
  set w
  match answer with
  | .ok v => return v
  | .error e => throw (.call e)

end Eval

/-- The result of an operation on two numbers. -/
def Arithmetic.apply (op : Arithmetic) (a b : Float) : Except EvalError Float :=
  match op with
  | add => .ok (a + b)
  | sub => .ok (a - b)
  | mul => .ok (a * b)
  | div => if b == 0.0 then .error .divisionByZero else .ok (a / b)
  | rem => if b == 0.0 then .error .moduloByZero else .ok (Number.remainder a b)

/-- The order of two numbers, or of two texts. -/
def Value.order? : Value → Value → Option Ordering
  | .number a, .number b =>
    if a < b then some .lt else if a == b then some .eq else if b < a then some .gt else none
  | .text a, .text b => some (compare a b)
  | _, _ => none

/-- The order satisfies a comparison that is about order. -/
def Comparison.holds (op : Comparison) (o : Ordering) : Bool :=
  match op with
  | equal => o.isEq
  | unequal => !o.isEq
  | less => o.isLT
  | atMost => o.isLE
  | greater => o.isGT
  | atLeast => o.isGE

/-- The result of a comparison. -/
def Comparison.apply (op : Comparison) (a b : Value) : Eval Bool := do
  let h := (← get).heap
  match op with
  | equal => return h.same a b
  | unequal => return !h.same a b
  | op =>
    match a.order? b with
    | some o => return op.holds o
    | none => throw (.unordered (h.render a) (h.render b))

/-- The number is no place in a sequence of the given size. -/
def Number.isOutside (n : Float) (size : Nat) : Bool :=
  fract n != 0.0 || n < 0.0 || n ≥ Float.ofNat size

/-- What is found under a key. Groups give a new sequence, which is empty for a key they lack. -/
def Value.at (target key : Value) : Eval Value := do
  let h := (← get).heap
  match target, key with
  | .collection cell, .number n =>
    let items := h.lists.get cell
    if Number.isOutside n items.length then throw (.outOfRange n items.length)
    else return items.getD (Number.whole n) .null
  | .dictionary cell, .text k =>
    match (h.dicts.get cell).find? k with
    | some v => return v
    | none => throw (.missingKey k)
  | .groups cell, .text k => Eval.newList (((h.groups.get cell).find? k).getD [])
  | target, key => throw (.notIndexable (h.render target) (h.render key))

namespace Checked

mutual

/-- The value of an expression. -/
def eval (vars : Space) : Checked → Eval Value
  | literal l => return l.value
  | var name _ =>
    match vars.value? name with
    | some v => return v
    | none => throw (.undeclared name)
  | negate e => do
    let n ← Eval.number (← eval vars e)
    return .number (-n)
  | not e => do
    let b ← Eval.boolean (← eval vars e)
    return .boolean (!b)
  | arithmetic op l r => do
    let a ← Eval.number (← eval vars l)
    let b ← Eval.number (← eval vars r)
    match op.apply a b with
    | .ok n => return .number n
    | .error e => throw e
  | concat l r => do
    let a ← eval vars l
    let b ← eval vars r
    return .text ((← Eval.render a) ++ (← Eval.render b))
  | compare op l r => do
    let a ← eval vars l
    let b ← eval vars r
    return .boolean (← op.apply a b)
  | and l r => do
    if ← Eval.boolean (← eval vars l) then
      return .boolean (← Eval.boolean (← eval vars r))
    else return .boolean false
  | or l r => do
    if ← Eval.boolean (← eval vars l) then return .boolean true
    else return .boolean (← Eval.boolean (← eval vars r))
  | index t k _ => do
    let t ← eval vars t
    let k ← eval vars k
    t.at k
  | call f args => do Eval.call f (← evalAll vars args)

/-- The values of some expressions, from the first on. -/
def evalAll (vars : Space) : List Checked → Eval (List Value)
  | [] => return []
  | e :: es => do
    let v ← eval vars e
    let vs ← evalAll vars es
    return v :: vs

end

/-- The value of an expression in a world, and the world after it. -/
def run (e : Checked) (vars : Space) (w : World) : Except EvalError Value × World :=
  (e.eval vars).run.run w

end Checked

end WorldScript
