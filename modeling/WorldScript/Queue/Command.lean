import WorldScript.Listing.Queue
import WorldScript.Queue.Basic

/-! # Commands to a queue

What a host can ask of a queue. A scheduled task has a label and may give commands to the same queue
when it runs; it notes its label with the time, and then each command's answer. Such a command may
run other tasks, so there is a bound on how deep this goes. -/

namespace WorldScript

/-- What can be asked of a queue. -/
inductive Command
  /-- Schedules a task with commands of its own. -/
  | schedule (label : String) (delay : Nat) (commands : List Command)
  | advance (elapsed : Nat)
  | runAll
  | remove (id : Nat)
  | clear
  /-- Changes nothing. -/
  | look
  /-- Asks for the listing. -/
  | list

/-- What a scheduled task does. -/
structure Plan where
  label : String
  commands : List Command

/-- What a queue answers. -/
inductive Answer
  | nothing
  | count (n : Nat)
  | found (b : Bool)
  | listing (s : String)
  deriving DecidableEq, Repr

/-- A text between double quotes, with a backslash before quotes and backslashes. The text has no
control characters. -/
def Answer.quotedListing (s : String) : String :=
  let escape (c : Char) : List Char := if c = '"' || c = '\\' then ['\\', c] else [c]
  String.ofList ('"' :: s.toList.flatMap escape ++ ['"'])

/-- The answer as notes write it. -/
def Answer.text : Answer → String
  | nothing => "null"
  | count n => toString n
  | found b => toString b
  | listing s => quotedListing s

/-- The notes that tasks made. -/
abbrev Notes := List String

namespace Command

/-- Gives a command to a queue whose tasks do what `fire` says. -/
def perform (fire : Queue.Fire Plan Notes) (limit : Nat) (q : Queue Plan) (notes : Notes) :
    Command → Option (Answer × Queue Plan × Notes)
  | schedule label delay commands =>
    some (.nothing, q.schedule delay label ⟨label, commands⟩, notes)
  | advance elapsed =>
    (Queue.advance fire limit elapsed q notes).map fun (ran, q, notes) => (.count ran, q, notes)
  | runAll => (Queue.runAll fire limit q notes).map fun (ran, q, notes) => (.count ran, q, notes)
  | remove id => some (.found (q.holds id), q.remove id, notes)
  | clear => some (.nothing, q.clear, notes)
  | look => some (.nothing, q, notes)
  | list => some (.listing q.listed, q, notes)

/-- Gives commands in order, and notes each answer under the label. -/
def performAll (fire : Queue.Fire Plan Notes) (limit : Nat) (label : String) :
    List Command → Queue Plan → Notes → Option (Queue Plan × Notes)
  | [], q, notes => some (q, notes)
  | c :: rest, q, notes => do
    let (answer, q, notes) ← perform fire limit q notes c
    performAll fire limit label rest q (notes ++ [label ++ ":" ++ answer.text])

end Command

/-- What a task does, where tasks may run others inside of themselves to the given depth. -/
def Plan.fire (limit : Nat) : Nat → Queue.Fire Plan Notes
  | 0, _, _, _ => none
  | depth + 1, t, q, notes =>
    Command.performAll (Plan.fire limit depth) limit t.payload.label t.payload.commands q
      (notes ++ [t.payload.label ++ s!"@{q.now}"])

end WorldScript
