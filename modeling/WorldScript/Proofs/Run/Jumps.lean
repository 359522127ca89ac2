import WorldScript.Library.Standard
import WorldScript.Proofs.Run.Signals

/-! # Where jumps end

With strict jumps, the compiler takes a `break` only inside of a loop or a switch, and a `continue`
only inside of a loop; a delayed block starts outside of both. What it allows and what runs make of
the two signals fit together: loops take both, a switch takes a `break` and lets a `continue`
through, an `if` lets both through.

* `Statement.JumpFree`: no run of a sequence ends with a jump, whatever the state it begins in.
* `compiled_jumps_confined`: whole sources and delayed blocks are free of jumps, and a statement
  ends with a jump only if its context has something that the jump is meant for. -/

namespace WorldScript

/-- A block of a statement that occurs in a sequence occurs there with all that is in it. -/
theorem Occurs.into_block {p q r : Place} {l body : List Statement} {s t : Statement}
    (h : Occurs p l q s) (hbody : body ∈ s.blocks) (ht : Occurs (q.inside s) body r t) :
    Occurs p l r t := by
  induction h with
  | head => exact .block hbody ht
  | tail _ ih => exact .tail (ih hbody ht)
  | block hb _ ih => exact .block hb (ih hbody ht)

/-- Settings are the same all through a source. -/
theorem Occurs.settings_eq {p q : Place} {l : List Statement} {s : Statement}
    (h : Occurs p l q s) : q.context.settings = p.context.settings := by
  induction h with
  | head => rfl
  | tail _ ih => exact ih
  | @block p q s t rest body _ _ ih => rw [ih, Statement.strictJumps_inside p s]

namespace Statement

/-- Wherever a run of the sequence begins, it does not end with a jump. -/
def JumpFree (l : List Statement) : Prop :=
  ∀ limit m signal m', runAll limit l m = some (signal, m') →
    signal ≠ .broke ∧ signal ≠ .continued

/-- A jump that nothing is there for does not happen. -/
theorem not_meant_of_outside {ctx : Context} {signal : Signal} (hloop : ctx.inLoop = false)
    (hswitch : ctx.inSwitch = false) (h : Meant ctx signal) :
    signal ≠ .broke ∧ signal ≠ .continued := by
  refine ⟨?_, ?_⟩
  · rintro rfl
    have hsome : ctx.inLoop = true ∨ ctx.inSwitch = true := h
    simp [hloop, hswitch] at hsome
  · rintro rfl
    have hsome : ctx.inLoop = true := h
    simp [hloop] at hsome

/-- Well placed statements outside of loops and switches do not end with a jump. -/
theorem jumpFree_of_everywhere {p : Place} {l : List Statement}
    (hstrict : p.context.settings.strictJumps = true) (hloop : p.context.inLoop = false)
    (hswitch : p.context.inSwitch = false) (hall : Everywhere (fun q s => s.WellPlaced q) p l) :
    JumpFree l := by
  intro limit m signal m' hrun
  have hmeant : Meant p.context signal := jumps_meant limit l p m signal m' hstrict hall hrun
  exact not_meant_of_outside hloop hswitch hmeant

/-- A delayed block stands outside of all loops and switches, wherever it was delayed. -/
theorem jumpFree_of_delay {p q : Place} {l body : List Statement} {line : Nat} {duration : Checked}
    (hstrict : p.context.settings.strictJumps = true)
    (hall : Everywhere (fun q s => s.WellPlaced q) p l)
    (h : Occurs p l q (delay line duration body)) : JumpFree body := by
  have hblock : body ∈ (delay line duration body).blocks := List.mem_singleton_self body
  have hstrict' : (q.inside (delay line duration body)).context.settings.strictJumps = true := by
    rw [strictJumps_inside, h.settings_eq]
    exact hstrict
  exact jumpFree_of_everywhere hstrict' rfl rfl fun r t ht => hall r t (h.into_block hblock ht)

end Statement

/-- The statements of a whole source are well placed. -/
theorem compileSequence_wellPlaced {ctx : Context} {scope : Scope} {lines : List Line}
    {l : List Statement} (h : compileSequence ctx scope lines = .ok l) :
    Everywhere (fun q s => s.WellPlaced q) ⟨ctx, scope⟩ l := by
  have hproduced := (compileNext_faithful lines ctx.settings.maxNesting ctx).compileWithin
    (List.suffix_refl lines) h
  exact hproduced.mono fun q s hs => hs.wellPlaced

/-- A statement ends with a jump only if that is meant for something around it. -/
theorem compileNext_meant {budget : Nat} {ctx : Context} {scope : Scope} {lines : List Line}
    {step : Step} (hstrict : ctx.settings.strictJumps = true)
    (h : compileNext budget ctx scope lines = .ok step) {limit : Nat} {m m' : Machine}
    {signal : Signal} (hrun : step.statement.run limit m = some (signal, m')) :
    Statement.Meant ctx signal := by
  obtain ⟨-, -, hproduced⟩ :=
    compileNext_faithful lines budget ctx scope lines step (List.suffix_refl lines) h
  have hall : Everywhere (fun q s => s.WellPlaced q) ⟨ctx, scope⟩ [step.statement] :=
    hproduced.mono fun q s hs => hs.wellPlaced
  by_cases hnormal : signal = .normal
  · rw [hnormal]
    trivial
  · have hseq : Statement.runAll limit [step.statement] m = some (signal, m') :=
      Statement.runAll_cons_of_ne hnormal hrun
    exact Statement.jumps_meant limit [step.statement] ⟨ctx, scope⟩ m signal m' hstrict hall hseq

/-- **Jumps stay where they are meant.** Compiled with strict jumps, a source outside of loops and
switches never ends with a `break` or a `continue`, and neither does any block that is delayed in
it, in whatever state these are run. A single statement never ends with a `continue` outside of
loops, and never with a `break` outside of loops and switches. -/
theorem compiled_jumps_confined :
    (∀ {ctx : Context} {scope : Scope} {lines : List Line} {l : List Statement},
      ctx.settings.strictJumps = true → ctx.inLoop = false → ctx.inSwitch = false →
      compileSequence ctx scope lines = .ok l →
      Statement.JumpFree l ∧
        ∀ q line duration body, Occurs ⟨ctx, scope⟩ l q (.delay line duration body) →
          Statement.JumpFree body) ∧
    ∀ {budget : Nat} {ctx : Context} {scope : Scope} {lines : List Line} {step : Step},
      ctx.settings.strictJumps = true → ctx.inLoop = false →
      compileNext budget ctx scope lines = .ok step →
      ∀ limit m signal m', step.statement.run limit m = some (signal, m') →
        signal ≠ .continued ∧ (ctx.inSwitch = false → signal ≠ .broke) := by
  refine ⟨?_, ?_⟩
  · intro ctx scope lines l hstrict hloop hswitch h
    have hall := compileSequence_wellPlaced h
    refine ⟨Statement.jumpFree_of_everywhere hstrict hloop hswitch hall, ?_⟩
    intro q line duration body hdelay
    exact Statement.jumpFree_of_delay hstrict hall hdelay
  · intro budget ctx scope lines step hstrict hloop h limit m signal m' hrun
    have hmeant := compileNext_meant hstrict h hrun
    refine ⟨?_, fun hswitch => (Statement.not_meant_of_outside hloop hswitch hmeant).1⟩
    rintro rfl
    have hinside : ctx.inLoop = true := hmeant
    simp [hloop] at hinside

/-- A loop that delays a block with a loop of its own, and is left from a switch and by itself. -/
def Source.delayInLoop : List Line :=
  Source.lines ("while (true)\ndelay (0)\nfor (i : 2)\ncontinue\nend for\nend delay\n" ++
    "switch (1)\ndefault\nbreak\nend switch\nbreak\nend while")

/-- The statements of a source that consists of a loop in which the first statement is delayed. -/
def Source.delayInLoop? (c : Compile (List Statement)) : Bool :=
  match c with
  | .ok [.whileLoop _ _ (.delay _ _ _ :: _)] => true
  | _ => false

theorem Source.delayInLoop?_eq_true {c : Compile (List Statement)} (h : delayInLoop? c = true) :
    ∃ line test line' duration body rest,
      c = .ok [.whileLoop line test (.delay line' duration body :: rest)] := by
  unfold delayInLoop? at h
  split at h
  · exact ⟨_, _, _, _, _, _, rfl⟩
  · cases h

theorem compiled_jumps_confined_delayInLoop : ∃ line test line' duration body rest,
    compileSequence { library := .standard, settings := {}, returns := .void } .empty
      Source.delayInLoop = .ok [.whileLoop line test (.delay line' duration body :: rest)] ∧
    Statement.JumpFree [.whileLoop line test (.delay line' duration body :: rest)] ∧
    Statement.JumpFree body := by
  have hsource : Source.delayInLoop? (compileSequence
      { library := .standard, settings := {}, returns := .void } .empty Source.delayInLoop) =
      true := by
    decide +kernel
  obtain ⟨line, test, line', duration, body, rest, h⟩ := Source.delayInLoop?_eq_true hsource
  obtain ⟨hfree, hdelayed⟩ := compiled_jumps_confined.1 rfl rfl rfl h
  exact ⟨line, test, line', duration, body, rest, h, hfree,
    hdelayed _ line' duration body (.block (List.mem_singleton_self _) .head)⟩

end WorldScript
