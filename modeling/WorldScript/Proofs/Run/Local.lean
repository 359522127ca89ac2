import WorldScript.Proofs.Run.Beside

/-! # Runs beside each other

From two states that are alike, a sequence of statements runs to the same signal, in states that are
alike, or both runs reach their bound. This is shown of the beginning of a statement and of one
turn, and then by induction on the turns and on the blocks. Between two turns a statement keeps
values: the one to be matched, and the items that are left. These stay joined while a block runs,
since nothing ceases to exist.

* `Statement.AllStandard`: sequences whose expressions call functions of the standard library only.
* `Statement.start_alike`, `Statement.turn_alike`: the beginning, and one turn.
* `Statement.runAll_alike`: whole runs. -/

namespace WorldScript

namespace Statement

/-- The expressions that a statement evaluates outside of its blocks. -/
def expressions : Statement → List Checked
  | declare _ _ _ initial => initial.toList
  | assign _ _ value => [value]
  | compound _ _ _ value => [value]
  | ifChain _ arms _ => arms.map Section.test
  | forCount _ _ count _ => [count]
  | forEach _ _ _ items _ => [items]
  | whileLoop _ test _ => [test]
  | switch _ value cases _ => value :: cases.map Section.test
  | breakOut => []
  | continueOn => []
  | returnWith _ value => value.toList
  | change _ _ c => c.expressions
  | call _ e => [e]
  | delay _ duration _ => [duration]

/-- A statement of the sequence, or of a block in it. -/
inductive Within : List Statement → Statement → Prop
  | head {s : Statement} {rest : List Statement} : Within (s :: rest) s
  | tail {s t : Statement} {rest : List Statement} : Within rest t → Within (s :: rest) t
  | block {s t : Statement} {rest body : List Statement} :
    body ∈ s.blocks → Within body t → Within (s :: rest) t

/-- All expressions of the sequence and its blocks call functions of the standard library only. -/
def AllStandard (l : List Statement) : Prop := ∀ s, Within l s → ∀ e ∈ s.expressions, e.Standard

theorem AllStandard.block {s : Statement} {rest body : List Statement}
    (h : AllStandard (s :: rest)) (hb : body ∈ s.blocks) : AllStandard body :=
  fun t ht => h t (.block hb ht)

theorem AllStandard.tail {s : Statement} {rest : List Statement} (h : AllStandard (s :: rest)) :
    AllStandard rest := fun t ht => h t (.tail ht)

end Statement

/-! ### What is kept between turns -/

/-- The same stage, with values that are related. -/
inductive Stage.Alike (R : Value → Value → Prop) : Stage → Stage → Prop
  | choice : Alike R .choice .choice
  | matching {v v' : Value} : R v v' → Alike R (.matching v) (.matching v')
  | count (i last : Float) : Alike R (.count i last) (.count i last)
  | items {rest rest' : List Value} : List.Forall₂ R rest rest' →
    Alike R (.items rest) (.items rest')
  | test : Alike R .test .test

namespace Stage.Alike

variable {R S : Value → Value → Prop} {stage stage' : Stage}

theorem imp (h : stage.Alike R stage') (hRS : ∀ v v', R v v' → S v v') : stage.Alike S stage' := by
  cases h with
  | choice => exact .choice
  | matching hv => exact .matching (hRS _ _ hv)
  | count i last => exact .count i last
  | items hrest => exact .items (hrest.imp hRS)
  | test => exact .test

theorem bound (h : stage.Alike R stage') (limit : Nat) :
    stage'.bound limit = stage.bound limit := by
  cases h with
  | items hrest => rw [Stage.bound, Stage.bound, hrest.length_eq]
  | _ => rfl

end Stage.Alike

/-- The same block, with the same variable if it begins with one, and related values for it. -/
inductive Entry.Alike (R : Value → Value → Prop) : Entry → Entry → Prop
  | plain (body : List Statement) : Alike R ⟨none, body⟩ ⟨none, body⟩
  | bound (name : String) (type : Ty) {v v' : Value} (body : List Statement) : R v v' →
    Alike R ⟨some (name, type, v), body⟩ ⟨some (name, type, v'), body⟩

/-- Two beginnings of a statement. -/
inductive StartsAlike (p : Pairing) (left right : Machine) (h : Heap) : Start → Start → Prop
  | ended {x x' : Ending} : EndsAlike p left right h x x' →
    StartsAlike p left right h (.ended x) (.ended x')
  | turns {stage stage' : Stage} {m m' : Machine} : stage.Alike (p.At m.world.heap) stage' →
    Machine.Alike p left right m m' → h.Grows m.world.heap →
    StartsAlike p left right h (.turns stage m) (.turns stage' m')

/-- Two turns of a statement. -/
inductive TurnsAlike (p : Pairing) (left right : Machine) (h : Heap) : Turn → Turn → Prop
  | ended {x x' : Ending} : EndsAlike p left right h x x' →
    TurnsAlike p left right h (.ended x) (.ended x')
  | block {e e' : Entry} {stage stage' : Stage} {m m' : Machine} :
    e.Alike (p.At m.world.heap) e' → stage.Alike (p.At m.world.heap) stage' →
    Machine.Alike p left right m m' → h.Grows m.world.heap →
    TurnsAlike p left right h (.block e stage m) (.block e' stage' m')

variable {p : Pairing} {left right m m' : Machine} {h before : Heap} {line limit : Nat}

theorem TurnsAlike.grow {t t' : Turn} (ht : TurnsAlike p left right h t t')
    (hgrows : before.Grows h) : TurnsAlike p left right before t t' := by
  cases ht with
  | ended hx => exact .ended (hx.grow hgrows)
  | block he hstage hm hmore => exact .block he hstage hm (hgrows.trans hmore)

/-! ### Blocks -/

theorem Entry.open?_alike {e e' : Entry} (hm : Machine.Alike p left right m m')
    (he : e.Alike (p.At m.world.heap) e') :
    Option.Rel (fun inside inside' => Machine.Alike p left right inside inside' ∧
      inside.world = m.world) (e.open? m) (e'.open? m') := by
  cases he with
  | plain body => exact .some ⟨hm.withVars hm.vars.push, rfl⟩
  | bound name type body hv =>
    exact rel_map (hm.vars.push.declare? name type hv) fun _ _ hvars => ⟨hm.withVars hvars, rfl⟩

namespace Statement

/-- Two runs of the sequence reach the bound, or end alike. -/
def RunsAlike (p : Pairing) (left right : Machine) (limit : Nat) (l : List Statement) : Prop :=
  ∀ {m m' : Machine}, Machine.Alike p left right m m' →
    Option.Rel (EndsAlike p left right m.world.heap) (runAll limit l m) (runAll limit l m')

end Statement

open Statement (RunsAlike)

/-- A block in a frame of its own. -/
theorem Entry.run_alike {e e' : Entry} (hm : Machine.Alike p left right m m')
    (he : e.Alike (p.At m.world.heap) e') (hbody : RunsAlike p left right limit e.body) :
    Option.Rel (EndsAlike p left right m.world.heap) (e.run limit m) (e'.run limit m') := by
  have hsame : e'.body = e.body ∧ e'.refuse = e.refuse := by
    cases he with
    | plain body => exact ⟨rfl, rfl⟩
    | bound name type body _ => exact ⟨rfl, rfl⟩
  unfold Entry.run
  rw [hsame.1, hsame.2]
  rcases rel_eq_or (open?_alike hm he) with ⟨h₁, h₂⟩ | ⟨inside, inside', h₁, h₂, hinside, hworld⟩
  · rw [h₁, h₂]
    exact .some ⟨rfl, hm, .refl _⟩
  · rw [h₁, h₂]
    refine rel_map (hbody hinside) ?_
    rintro ⟨signal, m₁⟩ ⟨signal', m₁'⟩ ⟨hsignal, hm₁, hgrows⟩
    rw [hworld] at hgrows
    exact ⟨hsignal, hm₁.withVars hm₁.vars.pop, hgrows⟩

/-! ### One turn -/

/-- A condition gives the same truth value, or ends the statement alike. -/
theorem Machine.Alike.condition (hm : Machine.Alike p left right m m') {test : Checked}
    (htest : test.Standard) :
    (∃ b m₁ m₁', m.condition line test = .ok (b, m₁) ∧ m'.condition line test = .ok (b, m₁') ∧
      Machine.Alike p left right m₁ m₁' ∧ m.world.heap.Grows m₁.world.heap) ∨
    ∃ x x', m.condition line test = .error x ∧ m'.condition line test = .error x' ∧
      EndsAlike p left right m.world.heap x x' := by
  unfold Machine.condition
  rcases hm.eval htest with ⟨v, v', m₁, m₁', h₁, h₂, hm₁, hgrows, hv⟩ |
    ⟨err, m₁, m₁', h₁, h₂, hm₁, hgrows⟩
  · rw [h₁, h₂]
    have hfail : EndsAlike p left right m.world.heap (m₁.fail line (.notBoolean (m₁.render v)))
        (m₁'.fail line (.notBoolean (m₁'.render v'))) :=
      (hm₁.fail (by rw [hm₁.render hv])).grow hgrows
    cases hv.1 with
    | plain _ =>
      cases v with
      | boolean b => exact Or.inl ⟨b, m₁, m₁', rfl, rfl, hm₁, hgrows⟩
      | _ => exact Or.inr ⟨_, _, rfl, rfl, hfail⟩
    | _ => exact Or.inr ⟨_, _, rfl, rfl, hfail⟩
  · rw [h₁, h₂]
    exact Or.inr ⟨_, _, rfl, rfl, (hm₁.fail rfl).grow hgrows⟩

namespace Statement

theorem otherwiseTurn_alike (otherwise : Option (List Statement)) {stage stage' : Stage}
    (hm : Machine.Alike p left right m m') (hstage : stage.Alike (p.At m.world.heap) stage') :
    TurnsAlike p left right m.world.heap (otherwiseTurn otherwise stage m)
      (otherwiseTurn otherwise stage' m') := by
  cases otherwise with
  | some body => exact .block (.plain body) hstage hm (.refl _)
  | none => exact .ended hm.done

theorem armTurn_alike (otherwise : Option (List Statement)) {arms : List Section}
    (harms : ∀ e ∈ arms.map Section.test, e.Standard) (hm : Machine.Alike p left right m m') :
    TurnsAlike p left right m.world.heap (armTurn otherwise arms m)
      (armTurn otherwise arms m') := by
  induction arms generalizing m m' with
  | nil => exact otherwiseTurn_alike otherwise hm .choice
  | cons arm rest ih =>
    obtain ⟨line, test, body⟩ := arm
    rw [armTurn, armTurn]
    rcases hm.condition (harms test List.mem_cons_self) with
      ⟨b, m₁, m₁', h₁, h₂, hm₁, hgrows⟩ | ⟨x, x', h₁, h₂, hx⟩
    · rw [h₁, h₂]
      cases b with
      | true => exact .block (.plain body) .choice hm₁ hgrows
      | false => exact (ih (fun e he => harms e (List.mem_cons_of_mem _ he)) hm₁).grow hgrows
    · rw [h₁, h₂]
      exact .ended hx

theorem caseTurn_alike (otherwise : Option (List Statement)) {cases : List Section}
    (hcases : ∀ e ∈ cases.map Section.test, e.Standard) {v v' : Value}
    (hm : Machine.Alike p left right m m') (hv : p.At m.world.heap v v') :
    TurnsAlike p left right m.world.heap (caseTurn v otherwise cases m)
      (caseTurn v' otherwise cases m') := by
  induction cases generalizing m m' with
  | nil => exact otherwiseTurn_alike otherwise hm (.matching hv)
  | cons c rest ih =>
    obtain ⟨line, test, body⟩ := c
    rw [caseTurn, caseTurn]
    rcases hm.eval (hcases test List.mem_cons_self) with
      ⟨w, w', m₁, m₁', h₁, h₂, hm₁, hgrows, hw⟩ | ⟨err, m₁, m₁', h₁, h₂, hm₁, hgrows⟩
    · rw [h₁, h₂]
      dsimp only
      have hv₁ := hv.mono hgrows
      rw [hm₁.world.heap.same hw hv₁]
      split
      · exact .block (.plain body) (.matching hv₁) hm₁ hgrows
      · exact (ih (fun e he => hcases e (List.mem_cons_of_mem _ he)) hm₁ hv₁).grow hgrows
    · rw [h₁, h₂]
      exact .ended ((hm₁.fail rfl).grow hgrows)

variable {s : Statement} {stage stage' : Stage}

/-- One turn. -/
theorem turn_alike (hs : ∀ e ∈ s.expressions, e.Standard) (hm : Machine.Alike p left right m m')
    (hstage : stage.Alike (p.At m.world.heap) stage') :
    TurnsAlike p left right m.world.heap (s.turn stage m) (s.turn stage' m') := by
  have hdone : TurnsAlike p left right m.world.heap (.ended m.done) (.ended m'.done) :=
    .ended hm.done
  cases s with
  | ifChain line arms otherwise =>
    cases hstage with
    | choice => exact armTurn_alike otherwise hs hm
    | _ => exact hdone
  | forCount line name count body =>
    cases hstage with
    | count i last =>
      rw [turn, turn]
      split
      · exact .block (.bound name .number body (.of_plain rfl)) (.count _ last) hm (.refl _)
      · exact hdone
    | _ => exact hdone
  | forEach line name element items body =>
    cases hstage with
    | items hrest =>
      cases hrest with
      | nil => exact hdone
      | cons hitem hrest =>
        exact .block (.bound name element body hitem) (.items hrest) hm (.refl _)
    | _ => exact hdone
  | whileLoop line test body =>
    cases hstage with
    | test =>
      rw [turn, turn]
      rcases hm.condition (hs test List.mem_cons_self) with
        ⟨b, m₁, m₁', h₁, h₂, hm₁, hgrows⟩ | ⟨x, x', h₁, h₂, hx⟩
      · rw [h₁, h₂]
        cases b with
        | true => exact .block (.plain body) .test hm₁ hgrows
        | false => exact .ended (hm₁.done.grow hgrows)
      · rw [h₁, h₂]
        exact .ended hx
    | _ => exact hdone
  | switch line value cases otherwise =>
    cases hstage with
    | matching hv =>
      exact caseTurn_alike otherwise (fun e he => hs e (List.mem_cons_of_mem _ he)) hm hv
    | _ => exact hdone
  | _ => exact hdone

/-- The beginning of a statement. -/
theorem start_alike (hs : ∀ e ∈ s.expressions, e.Standard)
    (hm : Machine.Alike p left right m m') :
    StartsAlike p left right m.world.heap (s.start m) (s.start m') := by
  cases s with
  | declare line name type initial =>
    exact .ended (hm.declare fun e he => hs e (Option.mem_toList.mpr he))
  | assign line name value => exact .ended (hm.assign (hs value List.mem_cons_self))
  | compound line name op value => exact .ended (hm.compound (hs value List.mem_cons_self))
  | ifChain line arms otherwise => exact .turns .choice hm (.refl _)
  | forCount line name count body =>
    rw [start, start]
    rcases hm.eval (hs count List.mem_cons_self) with
      ⟨v, v', m₁, m₁', h₁, h₂, hm₁, hgrows, hv⟩ | ⟨err, m₁, m₁', h₁, h₂, hm₁, hgrows⟩
    · rw [h₁, h₂]
      have hfail : StartsAlike p left right m.world.heap
          (.ended (m₁.fail line (.notCount (m₁.render v))))
          (.ended (m₁'.fail line (.notCount (m₁'.render v')))) :=
        .ended ((hm₁.fail (by rw [hm₁.render hv])).grow hgrows)
      cases hv.1 with
      | plain _ =>
        cases v with
        | number n => exact .turns (.count _ _) hm₁ hgrows
        | _ => exact hfail
      | _ => exact hfail
    · rw [h₁, h₂]
      exact .ended ((hm₁.fail rfl).grow hgrows)
  | forEach line name element items body =>
    rw [start, start]
    rcases hm.eval (hs items List.mem_cons_self) with
      ⟨v, v', m₁, m₁', h₁, h₂, hm₁, hgrows, hv⟩ | ⟨err, m₁, m₁', h₁, h₂, hm₁, hgrows⟩
    · rw [h₁, h₂]
      have hfail : StartsAlike p left right m.world.heap
          (.ended (m₁.fail line (.notCollection (m₁.render v))))
          (.ended (m₁'.fail line (.notCollection (m₁'.render v')))) :=
        .ended ((hm₁.fail (by rw [hm₁.render hv])).grow hgrows)
      cases hv.1 with
      | plain hplain =>
        cases v with
        | collection c => cases hplain
        | _ => exact hfail
      | collection _ => exact .turns (.items (hm₁.world.heap.list hv)) hm₁ hgrows
      | _ => exact hfail
    · rw [h₁, h₂]
      exact .ended ((hm₁.fail rfl).grow hgrows)
  | whileLoop line test body => exact .turns .test hm (.refl _)
  | switch line value cases otherwise =>
    rw [start, start]
    rcases hm.eval (hs value List.mem_cons_self) with
      ⟨v, v', m₁, m₁', h₁, h₂, hm₁, hgrows, hv⟩ | ⟨err, m₁, m₁', h₁, h₂, hm₁, hgrows⟩
    · rw [h₁, h₂]
      exact .turns (.matching hv) hm₁ hgrows
    · rw [h₁, h₂]
      exact .ended ((hm₁.fail rfl).grow hgrows)
  | breakOut => exact .ended ⟨rfl, hm, .refl _⟩
  | continueOn => exact .ended ⟨rfl, hm, .refl _⟩
  | returnWith line value =>
    exact .ended (hm.returnWith fun e he => hs e (Option.mem_toList.mpr he))
  | change line name c => exact .ended (hm.change hs)
  | call line e => exact .ended (hm.callFunction (hs e List.mem_cons_self))
  | delay line duration body => exact .ended (hm.delay (hs duration List.mem_cons_self) body)

/-! ### Whole runs -/

/-- All turns, by induction on their number. What is kept between them stays joined, since nothing
ceases to exist while a block runs. -/
theorem turns_alike (hs : ∀ e ∈ s.expressions, e.Standard)
    (hblocks : ∀ body ∈ s.blocks, RunsAlike p left right limit body) (n : Nat)
    (hm : Machine.Alike p left right m m') (hstage : stage.Alike (p.At m.world.heap) stage') :
    Option.Rel (EndsAlike p left right m.world.heap) (s.turns limit n stage m)
      (s.turns limit n stage' m') := by
  induction n generalizing stage stage' m m' with
  | zero => exact .none
  | succ n ih =>
    rw [turns, turns]
    have hturn := turn_alike hs hm hstage
    cases hleft : s.turn stage m with
    | ended x =>
      rw [hleft] at hturn
      generalize s.turn stage' m' = t' at hturn ⊢
      cases hturn with
      | ended hx => exact .some hx
    | block e next m₁ =>
      rw [hleft] at hturn
      generalize s.turn stage' m' = t' at hturn ⊢
      cases hturn with
      | @block _ e' _ next' _ m₁' he hnext hm₁ hgrows =>
        dsimp only
        rcases rel_eq_or (Entry.run_alike hm₁ he (hblocks _ (turn_block hleft).1)) with
          ⟨h₁, h₂⟩ | ⟨⟨signal, m₂⟩, ⟨signal', m₂'⟩, h₁, h₂, hsignal, hm₂, hgrows₂⟩
        · rw [h₁, h₂]
          exact .none
        · rw [h₁, h₂]
          dsimp only at hsignal hm₂ hgrows₂ ⊢
          subst hsignal
          have hmore := hgrows.trans hgrows₂
          cases s.afterBlock signal' with
          | next =>
            have hnext₂ := hnext.imp fun _ _ hv => hv.mono hgrows₂
            exact rel_imp (ih hm₂ hnext₂) fun _ _ hx => hx.grow hmore
          | stop => exact .some ⟨rfl, hm₂, hmore⟩
          | pass => exact .some ⟨rfl, hm₂, hmore⟩

theorem run_alike (hs : ∀ e ∈ s.expressions, e.Standard)
    (hblocks : ∀ body ∈ s.blocks, RunsAlike p left right limit body)
    (hm : Machine.Alike p left right m m') :
    Option.Rel (EndsAlike p left right m.world.heap) (s.run limit m) (s.run limit m') := by
  rw [run_eq, run_eq]
  have hstart := start_alike hs hm
  generalize s.start m = x at hstart ⊢
  generalize s.start m' = x' at hstart ⊢
  cases hstart with
  | ended hx => exact .some hx
  | turns hstage hm₁ hgrows =>
    rw [Start.run, Start.run, hstage.bound]
    exact rel_imp (turns_alike hs hblocks _ hm₁ hstage) fun _ _ hx => hx.grow hgrows

/-- **Locality.** From two states that are alike, a sequence runs to ends that are alike. -/
theorem runAll_alike (p : Pairing) (left right : Machine) (limit : Nat) {l : List Statement}
    (hl : AllStandard l) : RunsAlike p left right limit l := by
  induction l using sequence_induction with
  | nil => exact fun hm => .some hm.done
  | cons s rest ihblocks ihrest =>
    intro m m' hm
    rw [runAll, runAll]
    have hs : ∀ e ∈ s.expressions, e.Standard := hl s .head
    rcases rel_eq_or (run_alike hs (fun body hb => ihblocks body hb (hl.block hb)) hm) with
      ⟨h₁, h₂⟩ | ⟨⟨signal, m₁⟩, ⟨signal', m₁'⟩, h₁, h₂, hsignal, hm₁, hgrows⟩
    · rw [h₁, h₂]
      exact .none
    · rw [h₁, h₂]
      dsimp only at hsignal hm₁ hgrows
      subst hsignal
      cases signal' with
      | normal => exact rel_imp (ihrest hl.tail hm₁) fun _ _ hx => hx.grow hgrows
      | _ => exact .some ⟨rfl, hm₁, hgrows⟩

end Statement

end WorldScript
