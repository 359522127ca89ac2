import WorldScript.Proofs.Queue.History
import WorldScript.Queue.Command

/-! # A list of commands to a queue

A host gives a queue one command after the other, and so does a task that runs: it may schedule and
remove tasks, clear the queue, move the clock and run other tasks inside of itself. Whatever the
commands are, all that happens to the queue is moves of its journal, and the notes tell which tasks
ran, when and in which order.

* `Journal.Step`: what can happen to a journal and to the notes.
* `Queue.Fire.Steps`: tasks do nothing but take such steps.
* `Command.perform_steps`: one command, for tasks of this sort.
* `Plan.fire_steps`: the tasks that commands schedule are of this sort, however deep they run one
  inside of the other.
* `Command.performAll_sound`: the journal and the notes of a list of commands. -/

namespace WorldScript

open Relation (ReflTransGen)

/-! ### Notes -/

/-- What a note tells. -/
inductive Note
  /-- The task begins to run at the time. -/
  | began (t : Task Plan) (time : Nat)
  | answered (label : String) (answer : Answer)

namespace Note

def text : Note → String
  | began t time => t.payload.label ++ s!"@{time}"
  | answered label answer => label ++ ":" ++ answer.text

/-- The task that begins to run, and when. -/
def run? : Note → Option (Task Plan × Nat)
  | began t time => some (t, time)
  | answered _ _ => none

end Note

/-! ### Steps of a journal and the notes -/

namespace Journal

/-- What can happen next to a journal and to the notes. A task that is taken out of the queue to run
is noted at once. -/
inductive Step : Journal Plan × Notes → Journal Plan × Notes → Prop
  | move {j j' : Journal Plan} {notes : Notes} :
    Move j j' → j'.ran = j.ran → Step (j, notes) (j', notes)
  | take {j : Journal Plan} {notes : Notes} {t : Task Plan} :
    j.queue.due? = some t → Step (j, notes) (j.take t, notes ++ [(Note.began t j.queue.now).text])
  | answer {j : Journal Plan} {notes : Notes} (label : String) (answer : Answer) :
    Step (j, notes) (j, notes ++ [(Note.answered label answer).text])

/-- What steps leave behind: moves of the journal, and notes of what has run since and of answers. -/
structure Records (x y : Journal Plan × Notes) : Prop where
  moves : ReflTransGen Move x.1 y.1
  noted : ∃ more : List Note, y.2 = x.2 ++ more.map Note.text ∧
    y.1.ran = x.1.ran ++ more.filterMap Note.run?

theorem Records.refl (x : Journal Plan × Notes) : Records x x := ⟨.refl, [], by simp, by simp⟩

theorem Records.trans {x y z : Journal Plan × Notes} (h : Records x y) (h' : Records y z) :
    Records x z := by
  obtain ⟨more, hnotes, hran⟩ := h.noted
  obtain ⟨more', hnotes', hran'⟩ := h'.noted
  refine ⟨h.moves.trans h'.moves, more ++ more', ?_, ?_⟩
  · rw [hnotes', hnotes, List.map_append, List.append_assoc]
  · rw [hran', hran, List.filterMap_append, List.append_assoc]

theorem Step.records {x y : Journal Plan × Notes} (h : Step x y) : Records x y := by
  cases h with
  | move hmove hran => exact ⟨.single hmove, [], by simp, by simp [hran]⟩
  | take hdue => exact ⟨.single (.take hdue), [.began _ _], rfl, rfl⟩
  | answer label answer => exact ⟨.refl, [.answered label answer], rfl, by simp [Note.run?]⟩

theorem records_of_steps {x y : Journal Plan × Notes} (h : ReflTransGen Step x y) :
    Records x y := by
  induction h with
  | refl => exact .refl x
  | tail _ hstep ih => exact ih.trans hstep.records

/-- From the journal and the notes, steps lead to the queue and the notes. -/
def LeadsTo (j : Journal Plan) (notes : Notes) (q : Queue Plan) (notes' : Notes) : Prop :=
  ∃ j' : Journal Plan, j'.queue = q ∧ ReflTransGen Step (j, notes) (j', notes')

end Journal

/-- A task is noted when it begins. All that it does then is to take steps. -/
def Queue.Fire.Steps (fire : Queue.Fire Plan Notes) : Prop :=
  ∀ (j : Journal Plan) t notes q notes', fire t j.queue notes = some (q, notes') →
    j.LeadsTo (notes ++ [(Note.began t j.queue.now).text]) q notes'

namespace Journal

variable {j j' : Journal Plan} {q : Queue Plan} {notes notes₁ notes' : Notes}

theorem LeadsTo.refl : j.LeadsTo notes j.queue notes := ⟨j, rfl, .refl⟩

theorem LeadsTo.of_move (h : Move j j') (hran : j'.ran = j.ran) :
    j.LeadsTo notes j'.queue notes := ⟨j', rfl, .single (.move h hran)⟩

theorem LeadsTo.head (h : ReflTransGen Step (j, notes) (j', notes₁))
    (hq : j'.LeadsTo notes₁ q notes') : j.LeadsTo notes q notes' := by
  obtain ⟨j₁, hqueue, hsteps⟩ := hq
  exact ⟨j₁, hqueue, h.trans hsteps⟩

variable {fire : Queue.Fire Plan Notes} (hfire : fire.Steps)
include hfire

/-! ### The loops -/

theorem runDue_steps {limit n : Nat} {j : Journal Plan} {notes : Notes}
    (h : Queue.runDue fire limit j.queue notes = some (n, q, notes')) :
    j.LeadsTo notes q notes' := by
  induction limit using Nat.strongRecOn generalizing j notes n with
  | ind limit ih =>
    rcases Queue.runDue_cases h with
      ⟨-, -, rfl, rfl⟩ | ⟨t, less, m, q₁, notes₁, hdue, rfl, -, hfired, hrest⟩
    · exact .refl
    · obtain ⟨j₁, rfl, hsteps⟩ := hfire (j.take t) t notes q₁ notes₁ hfired
      exact .head (.head (.take hdue) hsteps) (ih less (Nat.lt_succ_self less) hrest)

theorem advance_steps {limit elapsed n : Nat}
    (h : Queue.advance fire limit elapsed j.queue notes = some (n, q, notes')) :
    j.LeadsTo notes q notes' :=
  .head (.single (.move (.tick elapsed) rfl)) (runDue_steps hfire (j := j.tick elapsed) h)

theorem drain_steps {limit rounds n : Nat} {j : Journal Plan} {notes : Notes}
    (h : Queue.drain fire limit rounds j.queue notes = some (n, q, notes')) :
    j.LeadsTo notes q notes' := by
  induction rounds using Nat.strongRecOn generalizing j notes n with
  | ind rounds ih =>
    rcases Queue.drain_cases h with
      ⟨-, -, rfl, rfl⟩ | ⟨wait, less, m₁, m₂, q₁, notes₁, -, rfl, -, hadvance, hrest⟩
    · exact .refl
    · obtain ⟨j₁, rfl, hsteps⟩ := advance_steps hfire hadvance
      exact .head hsteps (ih less (Nat.lt_succ_self less) hrest)

end Journal

/-! ### Commands -/

namespace Command

variable {fire : Queue.Fire Plan Notes} (hfire : fire.Steps) {limit : Nat}
include hfire

theorem perform_steps {j : Journal Plan} {notes notes' : Notes} {c : Command} {answer : Answer}
    {q : Queue Plan} (h : c.perform fire limit j.queue notes = some (answer, q, notes')) :
    j.LeadsTo notes q notes' := by
  cases c with
  | schedule label delay commands =>
    cases h
    exact .of_move (.schedule delay label (Plan.mk label commands)) rfl
  | advance elapsed =>
    simp only [perform, Option.map_eq_some_iff] at h
    obtain ⟨⟨ran, q₁, notes₁⟩, hadvance, heq⟩ := h
    cases heq
    exact Journal.advance_steps hfire hadvance
  | runAll =>
    simp only [perform, Option.map_eq_some_iff] at h
    obtain ⟨⟨ran, q₁, notes₁⟩, hdrain, heq⟩ := h
    cases heq
    exact Journal.drain_steps hfire hdrain
  | remove id =>
    cases h
    exact .of_move (.remove id) rfl
  | clear =>
    cases h
    exact .of_move .clear rfl
  | look =>
    cases h
    exact .refl
  | list =>
    cases h
    exact .refl

theorem performAll_steps {label : String} {commands : List Command} {j : Journal Plan}
    {notes notes' : Notes} {q : Queue Plan}
    (h : performAll fire limit label commands j.queue notes = some (q, notes')) :
    j.LeadsTo notes q notes' := by
  induction commands generalizing j notes with
  | nil =>
    cases h
    exact .refl
  | cons c rest ih =>
    simp only [performAll, Option.bind_eq_bind, Option.bind_eq_some_iff, Prod.exists] at h
    obtain ⟨answer, q₁, notes₁, hperform, hrest⟩ := h
    obtain ⟨j₁, rfl, hsteps⟩ := perform_steps hfire hperform
    exact .head (.tail hsteps (.answer label answer)) (ih hrest)

end Command

/-- A task gives its commands to the queue, which may run other tasks to the depth below. -/
theorem Plan.fire_steps (limit depth : Nat) : (Plan.fire limit depth).Steps := by
  induction depth with
  | zero =>
    intro j t notes q notes' h
    cases h
  | succ depth ih =>
    intro j t notes q notes' h
    exact Command.performAll_steps ih h

/-- **The history of a list of commands.** A new queue is given any commands, in any order, whose
tasks give it commands in turn. If all of them come to an end, then what happened is the history of
a journal: numbers grow in the order of scheduling, no task ran before it was due, the tasks that
ran did so in the order of their times and numbers, and every task ran once, was removed, was
cleared or waits in the queue that is left. The notes tell of these runs, each with its time and in
their order, and else of answers only. -/
theorem Command.performAll_sound {limit depth : Nat} {label : String} {commands : List Command}
    {notes notes' : Notes} {q : Queue Plan}
    (h : performAll (Plan.fire limit depth) limit label commands .empty notes = some (q, notes')) :
    ∃ (j : Journal Plan) (more : List Note), j.Reachable ∧ j.queue = q ∧ j.Sound ∧
      notes' = notes ++ more.map Note.text ∧ j.ran = more.filterMap Note.run? := by
  obtain ⟨j, hqueue, hsteps⟩ := performAll_steps (Plan.fire_steps limit depth) (j := .blank) h
  have hrecords := Journal.records_of_steps hsteps
  have hreachable : j.Reachable := hrecords.moves
  obtain ⟨more, hnotes, hran⟩ := hrecords.noted
  exact ⟨j, more, hreachable, hqueue, hreachable.orderly.toSound, hnotes, hran⟩

end WorldScript
