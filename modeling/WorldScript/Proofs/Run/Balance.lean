import WorldScript.Proofs.Run.Frames

/-! # Every frame that is opened is left

However a statement ends, there are as many frames after it as before, and each frame declares what
it declared. Only the innermost one can have gained a name, by a declaration that ended normally. In
a sequence these gains add up: they are the names of the declarations that were carried out before
the sequence ended or was left.

* `Space.Gains`, `Space.Gains.trans`: what becomes of the frames, step after step.
* `Statement.completed`: the statements of a sequence that ended normally.
* `Statement.frames_after_run`: the statement for all trees. -/

namespace WorldScript

namespace Space

/-- There are as many frames as before. Those around the innermost one declare what they declared;
the innermost one declares besides the gained names, which no frame declared before. -/
structure Gains (s t : Space) (gained : List (String × Ty)) : Prop where
  depth : t.depth = s.depth
  outer : t.outer.map typesOf = s.outer.map typesOf
  inner : ∀ key type, typesOf t.inner key = some type ↔
    (key, type) ∈ gained ∨ typesOf s.inner key = some type
  new : ∀ p ∈ gained, ∀ f ∈ s.types, f p.1 = none

namespace Gains

variable {s t u : Space} {gained more : List (String × Ty)}

/-- Equal types are frames that gained nothing. -/
theorem of_types (h : t.types = s.types) : s.Gains t [] := by
  have hdepth : t.depth = s.depth := by
    simpa [types, Space.depth] using congrArg List.length h
  rw [types_eq_cons, types_eq_cons] at h
  obtain ⟨hinner, houter⟩ := List.cons.inj h
  refine ⟨hdepth, houter, ?_, ?_⟩
  · intro key type
    rw [hinner]
    simp
  · intro p hp
    cases hp

theorem of_declare? {name : String} {type : Ty} {v : Value}
    (h : s.declare? name type v = some t) : s.Gains t [(Text.lower name, type)] := by
  obtain ⟨houter, hinner⟩ := types_declare? h
  obtain ⟨hget, -⟩ := declare?_eq_some h
  have hnone : ∀ f ∈ s.types, f (Text.lower name) = none := by
    rw [get?_eq_none_iff, type?_eq, List.findSome?_eq_none_iff] at hget
    exact hget
  refine ⟨?_, houter, ?_, ?_⟩
  · simpa [Space.depth, frames] using congrArg List.length houter
  · intro key type'
    have hold := hnone (typesOf s.inner) List.mem_cons_self
    rw [hinner]
    by_cases hkey : key = Text.lower name
    · subst hkey
      simp [hold, eq_comm]
    · simp [hkey]
  · intro p hp
    rw [List.mem_singleton.mp hp]
    exact hnone

/-- What is gained in two steps is gained in all. -/
theorem trans (h₁ : s.Gains t gained) (h₂ : t.Gains u more) : s.Gains u (gained ++ more) := by
  have hkept : ∀ key, typesOf t.inner key = none → typesOf s.inner key = none := by
    intro key hnone
    cases hold : typesOf s.inner key with
    | none => rfl
    | some type =>
      rw [(h₁.inner key type).mpr (Or.inr hold)] at hnone
      cases hnone
  refine ⟨h₂.depth.trans h₁.depth, h₂.outer.trans h₁.outer, ?_, ?_⟩
  · intro key type
    rw [h₂.inner, h₁.inner, List.mem_append, or_left_comm, or_assoc]
  · intro p hp
    rcases List.mem_append.mp hp with hp | hp
    · exact h₁.new p hp
    · have hnew := h₂.new p hp
      rw [types_eq_cons, List.forall_mem_cons] at hnew ⊢
      exact ⟨hkept p.1 hnew.1, h₁.outer ▸ hnew.2⟩

end Gains

end Space

namespace Statement

variable {limit : Nat} {m : Machine} {ending : Ending}

/-- What the innermost frame gains by the statement when it ends with the signal: the variable of a
declaration that ends normally. -/
def gained (s : Statement) : Signal → List (String × Ty)
  | .normal => (s.declared?.map fun d => (Text.lower d.1, d.2)).toList
  | _ => []

/-- The statements of a sequence that end normally, up to the first that does not. -/
def completed (limit : Nat) : List Statement → Machine → List Statement
  | [], _ => []
  | s :: rest, m =>
    match run limit s m with
    | some (.normal, m') => s :: completed limit rest m'
    | _ => []

theorem gained_of_ne {s : Statement} {signal : Signal} (h : signal ≠ .normal) :
    s.gained signal = [] := by
  cases signal with
  | normal => exact absurd rfl h
  | _ => rfl

/-- One statement. -/
theorem run_gains {s : Statement} (h : s.run limit m = some ending) :
    m.vars.Gains ending.2.vars (s.gained ending.1) := by
  have hruns := run_types h
  unfold RunsTo at hruns
  cases hdeclared : s.declared? with
  | none =>
    rw [hdeclared] at hruns
    have hgained : s.gained ending.1 = [] := by
      unfold gained
      rw [hdeclared]
      cases ending.1 <;> rfl
    rw [hgained]
    exact .of_types hruns
  | some declared =>
    obtain ⟨name, type⟩ := declared
    rw [hdeclared] at hruns
    rcases hruns with ⟨hsignal, hvars⟩ | ⟨hsignal, v, hdeclare⟩
    · rw [gained_of_ne hsignal, hvars]
      exact .of_types rfl
    · have hgained : s.gained ending.1 = [(Text.lower name, type)] := by
        rw [hsignal, gained, hdeclared]
        rfl
      rw [hgained]
      exact .of_declare? hdeclare

/-- A sequence, by induction on it: the first statement gains its own, and the rest the others. -/
theorem runAll_gains {l : List Statement} (h : runAll limit l m = some ending) :
    m.vars.Gains ending.2.vars ((completed limit l m).flatMap (gained · .normal)) := by
  induction l generalizing m with
  | nil =>
    cases h
    exact .of_types rfl
  | cons s rest ih =>
    rw [runAll] at h
    rw [completed]
    cases hrun : run limit s m with
    | none =>
      rw [hrun] at h
      cases h
    | some first =>
      obtain ⟨signal, m'⟩ := first
      have hfirst := run_gains hrun
      rw [hrun] at h
      cases signal with
      | normal => exact hfirst.trans (ih h)
      | _ =>
        cases h
        exact hfirst

/-- **Frames are balanced, however a statement ends.** For every tree, compiled or not, and every
state: if a statement comes to an end, by whatever signal, then there are as many frames as before,
the frames around the innermost one declare the same names with the same types, and so does the
innermost one, except that it has gained the name of the statement if that is a declaration and
ended normally. After a sequence it has gained the names of the declarations that ended normally. -/
theorem frames_after_run (limit : Nat) (m : Machine) (ending : Ending) :
    (∀ s : Statement, s.run limit m = some ending →
      m.vars.Gains ending.2.vars (s.gained ending.1)) ∧
    ∀ l : List Statement, runAll limit l m = some ending →
      m.vars.Gains ending.2.vars ((completed limit l m).flatMap (gained · .normal)) :=
  ⟨fun _ h => run_gains h, fun _ h => runAll_gains h⟩

/-- Declares `x`, leaves a loop in which `y` was declared, and cannot declare `x` again. -/
def declaringTwice : List Statement := [
  .declare 1 "x" .number none,
  .whileLoop 2 (.literal (.boolean true)) [.declare 3 "y" .text none, .breakOut],
  .declare 6 "X" .text none]

/-- A block of a program, in which nothing is declared yet. -/
def insideBlock : Machine := ⟨.empty, Space.empty.push, none, "prog"⟩

/-- The loop is left by its `break`, and the sequence by an error; only `x` is left of it all. -/
theorem frames_after_run_declaringTwice :
    (∃ m', (declare 6 "X" .text none).run 1 insideBlock = some (.normal, m') ∧
      insideBlock.vars.Gains m'.vars [("x", .text)]) ∧
    ∃ err m', runAll 1 declaringTwice insideBlock = some (.failed err, m') ∧
      insideBlock.vars.Gains m'.vars [("x", .number)] := by
  obtain ⟨m₁, hone⟩ : ∃ m', (declare 6 "X" .text none).run 1 insideBlock = some (.normal, m') :=
    ⟨_, rfl⟩
  obtain ⟨err, m₂, hall⟩ : ∃ err m', runAll 1 declaringTwice insideBlock = some (.failed err, m') :=
    ⟨_, _, rfl⟩
  exact ⟨⟨m₁, hone, (frames_after_run 1 insideBlock _).1 _ hone⟩,
    err, m₂, hall, (frames_after_run 1 insideBlock _).2 _ hall⟩

end Statement

end WorldScript
