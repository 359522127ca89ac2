import WorldScript.Run.Leaf

/-! # Running statements

A statement runs on the state of a machine and ends with a signal. Loops of the language may go on
for ever, so a run has a bound on the rounds of each loop; `none` says that the bound was reached.

* `Statement.run`, `Statement.runAll`: a statement, and a sequence of them up to the first that does
  not end normally.
* `DelayedBlock.fire`: what a waiting block does when its time has come. -/

namespace WorldScript

/-- What a loop does after a round. -/
inductive AfterRound
  | next
  | stop
  | pass

/-- What the signal of a round means for its loop. -/
def Signal.afterRound : Signal → AfterRound
  | .normal => .next
  | .continued => .next
  | .broke => .stop
  | .returned => .pass
  | .failed _ => .pass

/-! ### Loops -/

/-- Rounds for `i`, `i + 1`, … up to the count. -/
def countRounds (round : Float → Run) (count : Float) : Nat → Float → Run
  | 0, _, _ => none
  | limit + 1, i, m =>
    if i ≤ count then
      match round i m with
      | none => none
      | some (signal, m) =>
        match signal.afterRound with
        | .next => countRounds round count limit (i + 1.0) m
        | .stop => some m.done
        | .pass => some (signal, m)
    else some m.done

/-- A round for each item. -/
def eachRound (round : Value → Run) : List Value → Run
  | [], m => some m.done
  | item :: rest, m =>
    match round item m with
    | none => none
    | some (signal, m) =>
      match signal.afterRound with
      | .next => eachRound round rest m
      | .stop => some m.done
      | .pass => some (signal, m)

/-- The truth value of a condition, or the end with its fault. -/
def Machine.condition (m : Machine) (line : Nat) (test : Checked) :
    Except Ending (Bool × Machine) :=
  match m.eval test with
  | (.ok (.boolean b), m) => .ok (b, m)
  | (.ok v, m) => .error (m.fail line (.notBoolean (m.render v)))
  | (.error e, m) => .error (m.fail line (.eval e))

/-- Rounds while the condition holds. -/
def whileRounds (line : Nat) (test : Checked) (round : Run) : Nat → Run
  | 0, _ => none
  | limit + 1, m =>
    match m.condition line test with
    | .error ending => some ending
    | .ok (false, m) => some m.done
    | .ok (true, m) =>
      match round m with
      | none => none
      | some (signal, m) =>
        match signal.afterRound with
        | .next => whileRounds line test round limit m
        | .stop => some m.done
        | .pass => some (signal, m)

/-- A round of a loop: the variable and the body in a frame of their own. -/
def loopRound (name : String) (type : Ty) (body : Run) (v : Value) : Run :=
  inFrame fun m =>
    match m.vars.declare? name type v with
    | some vars => body { m with vars }
    | none => some (.failed (.loopVariable name), m)

/-- A `break` that reaches a switch ends there. -/
def Signal.afterSwitch : Signal → Signal
  | .broke => .normal
  | s => s

namespace Statement

mutual

/-- Runs a statement, with at most `limit` rounds of each loop. -/
def run (limit : Nat) : Statement → Run
  | declare line name type initial, m => some (m.declare line name type initial)
  | assign line name value, m => some (m.assign line name value)
  | compound line name op value, m => some (m.compound line name op value)
  | ifChain _ arms otherwise, m =>
    runArms limit arms (fun m =>
      match otherwise with
      | some body => inFrame (fun m => runAll limit body m) m
      | none => some m.done) m
  | forCount line name count body, m =>
    match m.eval count with
    | (.ok (.number n), m) =>
      countRounds (fun i => loopRound name .number (fun m => runAll limit body m) (.number i))
        (Number.round n) limit 1.0 m
    | (.ok v, m) => some (m.fail line (.notCount (m.render v)))
    | (.error e, m) => some (m.fail line (.eval e))
  | forEach line name element items body, m =>
    match m.eval items with
    | (.ok (.collection c), m) =>
      eachRound (loopRound name element (fun m => runAll limit body m)) (m.world.heap.lists.get c) m
    | (.ok v, m) => some (m.fail line (.notCollection (m.render v)))
    | (.error e, m) => some (m.fail line (.eval e))
  | whileLoop line test body, m =>
    whileRounds line test (inFrame fun m => runAll limit body m) limit m
  | switch line value cases otherwise, m =>
    match m.eval value with
    | (.error e, m) => some (m.fail line (.eval e))
    | (.ok v, m) =>
      (runCases limit v cases (fun m =>
        match otherwise with
        | some body => inFrame (fun m => runAll limit body m) m
        | none => some m.done) m).map fun (signal, m) => (signal.afterSwitch, m)
  | breakOut, m => some (.broke, m)
  | continueOn, m => some (.continued, m)
  | returnWith line value, m => some (m.returnWith line value)
  | change line name c, m => some (m.change line name c)
  | call line e, m => some (m.callFunction line e)
  | delay line duration body, m => some (m.delay line duration body)

/-- Runs statements up to the first that does not end normally. -/
def runAll (limit : Nat) : List Statement → Run
  | [], m => some m.done
  | s :: rest, m =>
    match run limit s m with
    | none => none
    | some (.normal, m) => runAll limit rest m
    | some ending => some ending

/-- Runs the first arm whose condition holds. -/
def runArms (limit : Nat) : List Section → Run → Run
  | [], otherwise, m => otherwise m
  | .mk line test body :: rest, otherwise, m =>
    match m.condition line test with
    | .error ending => some ending
    | .ok (true, m) => inFrame (fun m => runAll limit body m) m
    | .ok (false, m) => runArms limit rest otherwise m

/-- Runs the first section whose value equals the given one. -/
def runCases (limit : Nat) (v : Value) : List Section → Run → Run
  | [], otherwise, m => otherwise m
  | .mk line test body :: rest, otherwise, m =>
    match m.eval test with
    | (.error e, m) => some (m.fail line (.eval e))
    | (.ok w, m) =>
      if m.world.heap.same w v then inFrame (fun m => runAll limit body m) m
      else runCases limit v rest otherwise m

end

/-- An empty branch may be passed over: its frame comes and goes. -/
theorem inFrame_runAll_isEmpty (limit : Nat) (body : List Statement) (m : Machine) :
    inFrame (fun m => runAll limit body m) m =
      if body.isEmpty then some m.done else inFrame (fun m => runAll limit body m) m := by
  cases body with
  | nil => rfl
  | cons s rest => rfl

end Statement

/-- A count that is below one, or not a number, may be passed over: it has no rounds. -/
theorem countRounds_one (round : Float → Run) (count : Float) (limit : Nat) (m : Machine) :
    countRounds round count (limit + 1) 1.0 m =
      if 1.0 ≤ count then countRounds round count (limit + 1) 1.0 m else some m.done := by
  by_cases h : 1.0 ≤ count
  · rw [if_pos h]
  · rw [countRounds, if_neg h, if_neg h]

/-- Runs a waiting block. How it ends does not matter; what it did to the world and to the queue
stays. -/
def DelayedBlock.fire (limit : Nat) : Queue.Fire DelayedBlock World := fun t q w => do
  let block := t.payload
  let (_, m) ← Statement.runAll limit block.body (block.start q w)
  return (m.queue.getD q, m.world)

end WorldScript
