import WorldScript.Run.Machine
import WorldScript.Name

/-! # Running statements without blocks -/

namespace WorldScript

/-- The operation on numbers that a compound assignment does. -/
def CompoundOp.arithmetic : CompoundOp → Arithmetic
  | .add => .add
  | .sub => .sub
  | .mul => .mul
  | .div => .div

/-- The number is a place in a sequence of the given size. -/
def Number.isInside (n : Float) (size : Nat) : Bool :=
  fract n == 0.0 && n ≥ 0.0 && n < Float.ofNat size

namespace Machine

/-- Adds a new variable, or fails on the line. -/
def introduce (m : Machine) (line : Nat) (name : String) (type : Ty) (v : Value) : Ending :=
  match m.vars.declare? name type v with
  | some vars => { m with vars }.done
  | none => m.fail line (.alreadyDeclared name)

/-- `var`: the initial value, or the one that goes with the type. -/
def declare (m : Machine) (line : Nat) (name : String) (type : Ty) (initial : Option Checked) :
    Ending :=
  match initial with
  | some e => m.withValue line e fun v m => m.introduce line name type v
  | none =>
    let (v, h) := m.world.heap.initial type
    (m.withHeap h).introduce line name type v

/-- An assignment. -/
def assign (m : Machine) (line : Nat) (name : String) (value : Checked) : Ending :=
  m.withValue line value fun v m => m.store line name v

/-- A compound assignment: arithmetic on numbers, joining of texts, and adding to or removing from a
collection, whose cell is changed. -/
def compound (m : Machine) (line : Nat) (name : String) (op : CompoundOp) (value : Checked) :
    Ending :=
  m.withValue line value fun operand m =>
    m.withVariable line name fun current =>
      let h := m.world.heap
      match op, current, operand with
      | op, .number a, .number b =>
        match op.arithmetic.apply a b with
        | .ok n => m.store line name (.number n)
        | .error e => m.fail line (.eval e)
      | .add, .text a, b => m.store line name (.text (a ++ m.render b))
      | .add, .collection cell, .collection more =>
        (m.withHeap (h.setList cell (h.lists.get cell ++ h.lists.get more))).done
      | .add, .collection cell, item =>
        (m.withHeap (h.setList cell (h.lists.get cell ++ [item]))).done
      | .sub, .collection cell, item =>
        (m.withHeap (h.setList cell (h.eraseFirst item (h.lists.get cell)))).done
      | op, current, _ => m.fail line (.wrongOperator op current.type)

/-- `return`: the value goes to the slot for it. -/
def returnWith (m : Machine) (line : Nat) (value : Option Checked) : Ending :=
  match value with
  | none => (.returned, m)
  | some e =>
    m.withValue line e fun v m =>
      match m.vars.set? Name.returnSlot v with
      | some vars => (.returned, { m with vars })
      | none => m.fail line (.undeclared Name.returnSlot)

/-- A call whose answer is not used. -/
def callFunction (m : Machine) (line : Nat) (e : Checked) : Ending :=
  m.withValue line e fun _ m => m.done

/-- `delay`: the block goes to the queue with the variables of now. -/
def delay (m : Machine) (line : Nat) (duration : Checked) (body : List Statement) : Ending :=
  m.withValue line duration fun v m =>
    match v with
    | .number n =>
      if n.isFinite && n ≥ 0.0 then
        match m.queue with
        | none => m.fail line .noScheduler
        | some q =>
          let description := s!"delayed block at line {line} of prog {m.program}"
          let q := q.schedule (Number.round n).toUInt64.toNat description (m.suspend body)
          { m with queue := some q }.done
      else m.fail line (.invalidDelay (m.render v))
    | v => m.fail line (.invalidDelay (m.render v))

/-! ### Changes of structural variables -/

/-- The text that a key must be. -/
def keyText (m : Machine) (key : Value) : Except RunFault String :=
  match key.text? with
  | some k => .ok k
  | none => .error (.keyNotText (m.render key))

/-- The place that an index means in a sequence of the given size. -/
def place (m : Machine) (index : Value) (size : Nat) : Except RunFault Nat :=
  match index with
  | .number n =>
    if Number.isInside n size then .ok (Number.whole n) else .error (.outOfRange n size)
  | v => .error (.indexNotNumber (m.render v))

/-- Goes on with what is required of a value, or fails on the line. -/
def require {α : Type} (m : Machine) (line : Nat) (r : Except RunFault α) (go : α → Ending) :
    Ending :=
  match r with
  | .ok a => go a
  | .error f => m.fail line f

/-- The values of some expressions, evaluated in order, and the state after them. -/
def values (m : Machine) : List Checked → Except EvalError (List Value) × Machine
  | [] => (.ok [], m)
  | e :: es =>
    match m.eval e with
    | (.error e, m) => (.error e, m)
    | (.ok v, m) =>
      match m.values es with
      | (.error e, m) => (.error e, m)
      | (.ok vs, m) => (.ok (v :: vs), m)

/-- The change of the target's cell. Only `removeat` leaves the cell alone: the variable gets a new
one. -/
def applyChange (m : Machine) (line : Nat) (name : String) (change : Change) (target : Value)
    (values : List Value) : Ending :=
  let h := m.world.heap
  match change, target, values with
  | .add _, .collection c, [v] => (m.withHeap (h.setList c (h.lists.get c ++ [v]))).done
  | .addKeyed _ _, .groups c, [k, v] =>
    m.require line (m.keyText k) fun k =>
      let d := h.groups.get c
      (m.withHeap (h.setGroups c (d.insert k ((d.find? k).getD [] ++ [v])))).done
  | .addRange _, .collection c, [.collection more] =>
    (m.withHeap (h.setList c (h.lists.get c ++ h.lists.get more))).done
  | .addRange _, .collection _, [v] => m.fail line (.notRange (m.render v))
  | .remove _, .collection c, [v] =>
    (m.withHeap (h.setList c (h.eraseFirst v (h.lists.get c)))).done
  | .removeAt _, .collection c, [i] =>
    let items := h.lists.get c
    m.require line (m.place i items.length) fun i =>
      let (v, h) := h.newList (items.eraseIdx i)
      (m.withHeap h).store line name v
  | .clear, .collection c, _ => (m.withHeap (h.setList c [])).done
  | .clear, .dictionary c, _ => (m.withHeap (h.setDict c .empty)).done
  | .clear, .groups c, _ => (m.withHeap (h.setGroups c .empty)).done
  | .set _ _, .dictionary c, [k, v] =>
    m.require line (m.keyText k) fun k =>
      (m.withHeap (h.setDict c ((h.dicts.get c).insert k v))).done
  | .set _ _, .collection c, [i, v] =>
    let items := h.lists.get c
    m.require line (m.place i items.length) fun i =>
      (m.withHeap (h.setList c (items.set i v))).done
  | .removeKey _, .dictionary c, [k] =>
    m.require line (m.keyText k) fun k =>
      (m.withHeap (h.setDict c ((h.dicts.get c).erase k))).done
  | .removeKey _, .groups c, [k] =>
    m.require line (m.keyText k) fun k =>
      (m.withHeap (h.setGroups c ((h.groups.get c).erase k))).done
  | _, target, _ => m.fail line (.cannotChange name target.type)

/-- A statement that changes a structural variable. -/
def change (m : Machine) (line : Nat) (name : String) (c : Change) : Ending :=
  match m.values c.expressions with
  | (.error e, m) => m.fail line (.eval e)
  | (.ok values, m) =>
    m.withVariable line name fun target => m.applyChange line name c target values

end Machine

end WorldScript
