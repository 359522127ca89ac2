import WorldScript.Program.Arguments
import WorldScript.Run.Basic

/-! # Running programs -/

namespace WorldScript

/-- The ways in which the run of a program can fail. -/
inductive InvokeError
  | arguments (e : ArgumentError)
  | statement (e : RunError)

/-- What is told about a failed run. -/
def InvokeError.message : InvokeError → String
  | arguments e => e.message
  | statement e => e.message

/-- The answer of a run, and what it left behind. -/
structure Outcome where
  answer : Except InvokeError Value
  queue : Option (Queue DelayedBlock)
  world : World

namespace Program

/-- The answer that a body gave: what is in the slot for it, and nothing if there is no slot. -/
def answerOf (signal : Signal) (vars : Space) : Except InvokeError Value :=
  match signal with
  | .failed e => .error (.statement e)
  | _ => .ok ((vars.value? Name.returnSlot).getD .null)

/-- The state in which the body of a program begins. -/
def start (p : Program) (arguments : List Value) (queue : Option (Queue DelayedBlock)) (w : World) :
    Except ArgumentError Machine := do
  let (vars, heap) ← p.bindArguments arguments w.heap
  return ⟨{ w with heap }, vars, queue, p.name⟩

/-- Runs a program. Delayed blocks go to the queue, if there is one. -/
def run (limit : Nat) (p : Program) (arguments : List Value) (queue : Option (Queue DelayedBlock))
    (w : World) : Option Outcome :=
  match p.start arguments queue w with
  | .error e => some ⟨.error (.arguments e), queue, w⟩
  | .ok m =>
    (Statement.runAll limit p.body m).map fun (signal, m) =>
      ⟨answerOf signal m.vars, m.queue, m.world⟩

end Program

end WorldScript
