import Mathlib.Logic.Relation
import WorldScript.Proofs.Run.Turns

/-! # The points of a run

A *point* is a moment at which a statement is about to run: where it stands, what is left of its
block, and the state. From a point, a run goes past the statement when that ends normally, or into
one of the blocks that it runs. The points of a run are all that can be reached in this way, whether
or not the run comes to an end.

* `Point.Follows`: one step from a point to the next.
* `Statement.exists_raises`: a signal that is not normal comes from one statement, at a point that
  was reached. -/

namespace WorldScript

open Relation (ReflTransGen)

namespace Statement

/-- The turns of a statement, from the given stage and state on, come to another stage and state. -/
inductive TurnAt (limit : Nat) (s : Statement) : Nat → Stage → Machine → Stage → Machine → Prop
  | here {n : Nat} {stage : Stage} {m : Machine} : TurnAt limit s (n + 1) stage m stage m
  | next {n : Nat} {stage stage' last : Stage} {m m' m'' m₃ : Machine} {e : Entry}
    {signal : Signal} :
    s.turn stage m = .block e stage' m' → e.run limit m' = some (signal, m'') →
    s.afterBlock signal = .next → TurnAt limit s n stage' m'' last m₃ →
    TurnAt limit s (n + 1) stage m last m₃

/-- The run of a statement comes to a turn at the stage and in the state. -/
def ComesTo (limit : Nat) (s : Statement) (m : Machine) (stage : Stage) (m' : Machine) : Prop :=
  ∃ first m₀, s.start m = .turns first m₀ ∧ TurnAt limit s (first.bound limit) first m₀ stage m'

/-- The run of a statement comes to a block, the statements of which begin in the last state. -/
def Enters (limit : Nat) (s : Statement) (m : Machine) (e : Entry) (inside : Machine) : Prop :=
  ∃ stage stage' m' m'', s.ComesTo limit m stage m' ∧ s.turn stage m' = .block e stage' m'' ∧
    e.open? m'' = some inside

/-- The statement itself ends with the signal, not a statement inside of it. -/
def Raises (limit : Nat) (s : Statement) (m : Machine) (signal : Signal) : Prop :=
  (∃ m', s.start m = .ended (signal, m')) ∨
    ∃ stage m₁, s.ComesTo limit m stage m₁ ∧
      ((∃ m', s.turn stage m₁ = .ended (signal, m')) ∨
        ∃ e stage' m₂, s.turn stage m₁ = .block e stage' m₂ ∧ e.open? m₂ = none ∧ e.refuse = signal)

end Statement

/-- A moment of a run: the place of the next statement, the statements that are left of its block,
and the state. -/
structure Point where
  place : Place
  rest : List Statement
  machine : Machine

namespace Point

/-- One step of a run. -/
inductive Follows (limit : Nat) : Point → Point → Prop
  | past {p : Place} {s : Statement} {rest : List Statement} {m m' : Machine} :
    s.run limit m = some (.normal, m') → Follows limit ⟨p, s :: rest, m⟩ ⟨p.after s, rest, m'⟩
  | into {p : Place} {s : Statement} {rest : List Statement} {m inside : Machine} {e : Entry} :
    s.Enters limit m e inside → Follows limit ⟨p, s :: rest, m⟩ ⟨p.inside s, e.body, inside⟩

/-- Any number of steps. -/
abbrev Leads (limit : Nat) : Point → Point → Prop := ReflTransGen (Follows limit)

/-- Where the statements stand does not matter for the course of a run. -/
theorem leads_elsewhere {limit : Nat} {p : Place} {l : List Statement} {m : Machine} {Q : Point}
    (p' : Place) (h : Leads limit ⟨p, l, m⟩ Q) :
    ∃ q, Leads limit ⟨p', l, m⟩ ⟨q, Q.rest, Q.machine⟩ := by
  induction h with
  | refl => exact ⟨p', .refl⟩
  | tail _ hstep ih =>
    obtain ⟨q, hleads⟩ := ih
    cases hstep with
    | past hrun => exact ⟨_, hleads.tail (.past hrun)⟩
    | into henters => exact ⟨_, hleads.tail (.into henters)⟩

end Point

/-! ### Where signals come from -/

namespace Statement

variable {limit : Nat}

/-- The signal of a run comes from a statement at a point of the run. -/
def Origin (limit : Nat) (P : Point) (signal : Signal) : Prop :=
  ∃ p s rest m, P.Leads limit ⟨p, s :: rest, m⟩ ∧ s.Raises limit m signal

theorem Origin.of_follows {P Q : Point} {signal : Signal} (h : Point.Follows limit P Q)
    (hQ : Origin limit Q signal) : Origin limit P signal := by
  obtain ⟨p, s, rest, m, hleads, hraises⟩ := hQ
  exact ⟨p, s, rest, m, .head h hleads, hraises⟩

/-- The signal of the turns is that of a turn, or comes out of a block, which passes it on. -/
theorem signal_of_turns {s : Statement} {n : Nat} {stage : Stage} {m : Machine} {signal : Signal}
    {m' : Machine} (h : s.turns limit n stage m = some (signal, m')) (hsignal : signal ≠ .normal) :
    ∃ last m₁, TurnAt limit s n stage m last m₁ ∧
      (s.turn last m₁ = .ended (signal, m') ∨
        s.afterBlock signal = .pass ∧
          ∃ e stage' m₂, s.turn last m₁ = .block e stage' m₂ ∧
            e.run limit m₂ = some (signal, m')) := by
  induction n generalizing stage m with
  | zero => cases h
  | succ n ih =>
    simp only [turns] at h
    split at h
    · rename_i ending hturn
      cases h
      exact ⟨stage, m, .here, Or.inl hturn⟩
    · rename_i e stage' m₂ hturn
      split at h
      · cases h
      · rename_i signal' m₃ hrun
        split at h
        · rename_i hafter
          obtain ⟨last, m₁, hat, hout⟩ := ih h
          exact ⟨last, m₁, .next hturn hrun hafter hat, hout⟩
        · cases h
          exact absurd rfl hsignal
        · rename_i hafter
          cases h
          exact ⟨stage, m, .here, Or.inr ⟨hafter, e, stage', m₂, hturn, hrun⟩⟩

/-- A block ends with the signal of its statements, unless its variable is refused. -/
theorem signal_of_entry {e : Entry} {m m' : Machine} {signal : Signal}
    (h : e.run limit m = some (signal, m')) :
    (e.open? m = none ∧ e.refuse = signal) ∨
      ∃ inside m'', e.open? m = some inside ∧ runAll limit e.body inside = some (signal, m'') := by
  unfold Entry.run at h
  split at h
  · rename_i hopen
    cases h
    exact Or.inl ⟨hopen, rfl⟩
  · rename_i inside hopen
    simp only [Option.map_eq_some_iff] at h
    obtain ⟨⟨signal', m''⟩, hrun, heq⟩ := h
    cases heq
    exact Or.inr ⟨inside, m'', hopen, hrun⟩

theorem origin_of_run {s : Statement}
    (hblocks : ∀ body ∈ s.blocks, ∀ p m signal m', signal ≠ .normal →
      runAll limit body m = some (signal, m') → Origin limit ⟨p, body, m⟩ signal)
    {p : Place} {rest : List Statement} {m m' : Machine} {signal : Signal}
    (hsignal : signal ≠ .normal) (h : s.run limit m = some (signal, m')) :
    Origin limit ⟨p, s :: rest, m⟩ signal := by
  rw [run_eq] at h
  cases hstart : s.start m with
  | ended ending =>
    rw [hstart] at h
    cases h
    exact ⟨p, s, rest, m, .refl, Or.inl ⟨m', hstart⟩⟩
  | turns stage m₀ =>
    rw [hstart] at h
    obtain ⟨last, m₁, hat, hout⟩ := signal_of_turns h hsignal
    have hcomes : s.ComesTo limit m last m₁ := ⟨stage, m₀, hstart, hat⟩
    rcases hout with hturn | ⟨-, e, stage', m₂, hturn, hrun⟩
    · exact ⟨p, s, rest, m, .refl, Or.inr ⟨last, m₁, hcomes, Or.inl ⟨m', hturn⟩⟩⟩
    · rcases signal_of_entry hrun with ⟨hopen, hrefuse⟩ | ⟨inside, m₃, hopen, hbody⟩
      · exact ⟨p, s, rest, m, .refl,
          Or.inr ⟨last, m₁, hcomes, Or.inr ⟨e, stage', m₂, hturn, hopen, hrefuse⟩⟩⟩
      · have hinto : Point.Follows limit ⟨p, s :: rest, m⟩ ⟨p.inside s, e.body, inside⟩ :=
          .into ⟨last, stage', m₁, m₂, hcomes, hturn, hopen⟩
        exact .of_follows hinto
          (hblocks _ (turn_block hturn).1 (p.inside s) inside signal m₃ hsignal hbody)

/-- A signal that is not normal comes from one statement, at a point that was reached. -/
theorem exists_raises (limit : Nat) (l : List Statement) : ∀ p m signal m', signal ≠ .normal →
    runAll limit l m = some (signal, m') → Origin limit ⟨p, l, m⟩ signal := by
  induction l using sequence_induction with
  | nil =>
    intro p m signal m' hsignal h
    cases h
    exact absurd rfl hsignal
  | cons s rest hblocks ih =>
    intro p m signal m' hsignal h
    simp only [runAll] at h
    split at h
    · cases h
    · rename_i m₁ hrun
      exact .of_follows (.past hrun) (ih (p.after s) m₁ signal m' hsignal h)
    · rename_i ending hrun
      cases h
      exact origin_of_run hblocks hsignal hrun

end Statement

end WorldScript
