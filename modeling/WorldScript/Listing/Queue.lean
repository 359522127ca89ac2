import WorldScript.Listing.Form
import WorldScript.Queue.Basic
import WorldScript.Text.Quoted

/-! # Listings of queues -/

namespace WorldScript

open Listing

namespace Listing

/-- The thousandths of a unit after its point, without zeros at the end. -/
def thousandths (n : Nat) : String :=
  let digits := (toString (1000 + n)).toList.drop 1
  String.ofList (digits.reverse.dropWhile (· = '0')).reverse

/-- A time in milliseconds: in seconds from one second on. -/
def duration (ms : Nat) : String :=
  if ms = 0 then "0ns"
  else if ms < 1000 then s!"{ms}ms"
  else if ms % 1000 = 0 then s!"{ms / 1000}s"
  else s!"{ms / 1000}." ++ thousandths (ms % 1000) ++ "s"

end Listing

/-- The listing of a task. -/
def Task.listed {α : Type} (t : Task α) : String :=
  record "Task" [("id", toString t.id), ("description", Text.quoted t.description),
    ("due", duration t.due)]

/-- The listing of a queue. -/
def Queue.listed {α : Type} (q : Queue α) : String :=
  record "DelayQueue" [("state", record "RefCell" [("value", record "QueueState" [
    ("tasks", sequence (q.tasks.map (·.listed))), ("now", duration q.now),
    ("next_id", toString q.lastId)])])]

end WorldScript
