import WorldScript.Proofs.Expr.Local
import WorldScript.Proofs.Run.Schedules

/-! # Statements beside each other

Two states are *alike* if their heaps and variables are, and if both have come from states of which
they have kept the notes, and to whose queues they have added requests that are alike. A statement
without blocks, run from two states that are alike, ends with the same signal, in states that are
alike. It is here that cells are written: always through a value, so that in both states the cells
written are paired.

* `Machine.Alike`, `EndsAlike`: states, and the ends of two runs.
* `Machine.Alike.withValue`, `Machine.Alike.withVariable`: how statements begin.
* `Machine.Alike.declare` and the like: the statements without blocks. -/

namespace WorldScript

/-- The same statements of the same program, with variables that are alike. -/
structure DelayedBlock.Alike (R : Value → Value → Prop) (b b' : DelayedBlock) : Prop where
  program : b'.program = b.program
  body : b'.body = b.body
  vars : b.vars.Alike R b'.vars

/-- Two requests for the same time, with the same description and blocks that are alike. -/
structure RequestAlike (R : Value → Value → Prop) (r r' : Nat × String × DelayedBlock) : Prop where
  delay : r'.1 = r.1
  description : r'.2.1 = r.2.1
  block : r.2.2.Alike R r'.2.2

/-- Two states on their way from two others. -/
structure Machine.Alike (p : Pairing) (left right m m' : Machine) : Prop where
  world : World.Alike p left.world right.world m.world m'.world
  vars : m.vars.Alike (p.At m.world.heap) m'.vars
  program : m'.program = m.program
  scheduler : m'.queue.isSome = m.queue.isSome
  requests : ∃ l l', List.Forall₂ (RequestAlike p.Joins) l l' ∧
    m.queue = left.queue.map (·.scheduleAll l) ∧ m'.queue = right.queue.map (·.scheduleAll l')

/-- Two ends with the same signal, in states that are alike. What existed in the given heap still
exists. -/
structure EndsAlike (p : Pairing) (left right : Machine) (h : Heap) (e e' : Ending) : Prop where
  signal : e'.1 = e.1
  alike : Machine.Alike p left right e.2 e'.2
  grows : h.Grows e.2.world.heap

/-- The expression calls functions of the standard library only. -/
abbrev Checked.Standard (e : Checked) : Prop := e.CallsOnly (· ∈ Library.standard.functions)

section Lists

variable {α β : Type} {R : α → β → Prop} {l : List α} {l' : List β}

theorem forall₂_eraseIdx (hl : List.Forall₂ R l l') (i : Nat) :
    List.Forall₂ R (l.eraseIdx i) (l'.eraseIdx i) := by
  induction hl generalizing i with
  | nil => exact .nil
  | cons ha hrest ih =>
    cases i with
    | zero => exact hrest
    | succ i => exact .cons ha (ih i)

theorem forall₂_set (hl : List.Forall₂ R l l') (i : Nat) {a : α} {b : β} (hab : R a b) :
    List.Forall₂ R (l.set i a) (l'.set i b) := by
  induction hl generalizing i with
  | nil => exact .nil
  | cons ha hrest ih =>
    cases i with
    | zero => exact .cons hab hrest
    | succ i => exact .cons ha (ih i)

end Lists

variable {p : Pairing} {left right m m' : Machine} {v v' : Value} {e : Checked} {line : Nat}
  {name : String} {h h' : Heap}

theorem EndsAlike.grow {x x' : Ending} (hx : EndsAlike p left right h x x') {before : Heap}
    (hgrows : before.Grows h) : EndsAlike p left right before x x' :=
  ⟨hx.signal, hx.alike, hgrows.trans hx.grows⟩

namespace Machine

namespace Alike

/-! ### Ends -/

variable (hm : Alike p left right m m')

include hm

theorem fail {fault fault' : RunFault} (hfault : fault' = fault) :
    EndsAlike p left right m.world.heap (m.fail line fault) (m'.fail line fault') :=
  ⟨by rw [hfault]; rfl, hm, .refl _⟩

theorem done : EndsAlike p left right m.world.heap m.done m'.done := ⟨rfl, hm, .refl _⟩

theorem render (hv : p.At m.world.heap v v') : m'.render v' = m.render v := hm.world.heap.render hv

/-! ### Steps -/

theorem withVars {vars vars' : Space} (hvars : vars.Alike (p.At m.world.heap) vars') :
    Alike p left right { m with vars } { m' with vars := vars' } :=
  ⟨hm.world, hvars, hm.program, hm.scheduler, hm.requests⟩

theorem withHeap (hgrows : m.world.heap.Grows h)
    (hheap : Heap.Alike p left.world.heap right.world.heap h h') :
    Alike p left right (m.withHeap h) (m'.withHeap h') :=
  ⟨⟨hheap, hm.world.notes, hm.world.notes'⟩, hm.vars.imp fun _ _ hv => hv.mono hgrows, hm.program,
    hm.scheduler, hm.requests⟩

/-- A cell is written, and nothing else. -/
theorem write (hgrows : m.world.heap.Grows h)
    (hheap : Heap.Alike p left.world.heap right.world.heap h h') :
    EndsAlike p left right m.world.heap (m.withHeap h).done (m'.withHeap h').done :=
  ⟨rfl, hm.withHeap hgrows hheap, hgrows⟩

/-- Two evaluations give joined values, or the same error. -/
theorem eval (he : e.Standard) :
    (∃ v v' m₁ m₁', m.eval e = (.ok v, m₁) ∧ m'.eval e = (.ok v', m₁') ∧
      Alike p left right m₁ m₁' ∧ m.world.heap.Grows m₁.world.heap ∧ p.At m₁.world.heap v v') ∨
    ∃ err m₁ m₁', m.eval e = (.error err, m₁) ∧ m'.eval e = (.error err, m₁') ∧
      Alike p left right m₁ m₁' ∧ m.world.heap.Grows m₁.world.heap := by
  obtain ⟨hworld, hgrows, hagree⟩ := Checked.eval_beside e he hm.world hm.vars
  have hm₁ : Alike p left right (m.eval e).2 (m'.eval e).2 :=
    ⟨hworld, hm.vars.imp fun _ _ hv => hv.mono hgrows, hm.program, hm.scheduler, hm.requests⟩
  have hagree' : Agree (p.At (m.eval e).2.world.heap) (m.eval e).1 (m'.eval e).1 := hagree
  have hgrows' : m.world.heap.Grows (m.eval e).2.world.heap := hgrows
  rcases hrun : m.eval e with ⟨r, m₁⟩
  rcases hrun' : m'.eval e with ⟨r', m₁'⟩
  rw [hrun] at hm₁ hagree' hgrows'
  rw [hrun'] at hm₁ hagree'
  cases hagree' with
  | ok hv => exact Or.inl ⟨_, _, m₁, m₁', rfl, rfl, hm₁, hgrows', hv⟩
  | error err => exact Or.inr ⟨err, m₁, m₁', rfl, rfl, hm₁, hgrows'⟩

theorem withValue (he : e.Standard) {go go' : Value → Machine → Ending}
    (hgo : ∀ v v' m₁ m₁', Alike p left right m₁ m₁' → p.At m₁.world.heap v v' →
      EndsAlike p left right m₁.world.heap (go v m₁) (go' v' m₁')) :
    EndsAlike p left right m.world.heap (m.withValue line e go) (m'.withValue line e go') := by
  unfold Machine.withValue
  rcases hm.eval he with ⟨v, v', m₁, m₁', h₁, h₂, hm₁, hgrows, hv⟩ |
    ⟨err, m₁, m₁', h₁, h₂, hm₁, hgrows⟩
  · rw [h₁, h₂]
    exact (hgo v v' m₁ m₁' hm₁ hv).grow hgrows
  · rw [h₁, h₂]
    exact (hm₁.fail rfl).grow hgrows

theorem withVariable {go go' : Value → Ending}
    (hgo : ∀ v v', p.At m.world.heap v v' →
      EndsAlike p left right m.world.heap (go v) (go' v')) :
    EndsAlike p left right m.world.heap (m.withVariable line name go)
      (m'.withVariable line name go') := by
  unfold Machine.withVariable
  rcases rel_eq_or (hm.vars.value? name) with ⟨h₁, h₂⟩ | ⟨v, v', h₁, h₂, hv⟩
  · rw [h₁, h₂]
    exact hm.fail rfl
  · rw [h₁, h₂]
    exact hgo v v' hv

theorem store (hv : p.At m.world.heap v v') :
    EndsAlike p left right m.world.heap (m.store line name v) (m'.store line name v') := by
  unfold Machine.store
  rcases rel_eq_or (hm.vars.set? name hv) with ⟨h₁, h₂⟩ | ⟨_, _, h₁, h₂, hvars⟩
  · rw [h₁, h₂]
    exact hm.fail rfl
  · rw [h₁, h₂]
    exact (hm.withVars hvars).done

theorem introduce {type : Ty} (hv : p.At m.world.heap v v') :
    EndsAlike p left right m.world.heap (m.introduce line name type v)
      (m'.introduce line name type v') := by
  unfold Machine.introduce
  rcases rel_eq_or (hm.vars.declare? name type hv) with ⟨h₁, h₂⟩ | ⟨_, _, h₁, h₂, hvars⟩
  · rw [h₁, h₂]
    exact hm.fail rfl
  · rw [h₁, h₂]
    exact (hm.withVars hvars).done

/-! ### Statements without blocks -/

theorem declare {type : Ty} {initial : Option Checked} (hinitial : ∀ e ∈ initial, e.Standard) :
    EndsAlike p left right m.world.heap (m.declare line name type initial)
      (m'.declare line name type initial) := by
  cases initial with
  | some e => exact hm.withValue (hinitial e rfl) fun _ _ _ _ hm₁ hv => hm₁.introduce hv
  | none =>
    obtain ⟨hheap, hv⟩ := hm.world.heap.initial type
    have hgrows := (m.world.heap.keeps_initial type).grows
    exact ((hm.withHeap hgrows hheap).introduce hv).grow hgrows

theorem assign (he : e.Standard) :
    EndsAlike p left right m.world.heap (m.assign line name e) (m'.assign line name e) :=
  hm.withValue he fun _ _ _ _ hm₁ hv => hm₁.store hv

theorem compound {op : CompoundOp} (he : e.Standard) :
    EndsAlike p left right m.world.heap (m.compound line name op e)
      (m'.compound line name op e) := by
  refine hm.withValue he fun operand operand' m₁ m₁' hm₁ hoperand => ?_
  refine hm₁.withVariable fun current current' hcurrent => ?_
  have hfail : EndsAlike p left right m₁.world.heap
      (m₁.fail line (.wrongOperator op current.type))
      (m₁'.fail line (.wrongOperator op current'.type)) :=
    hm₁.fail (by rw [hcurrent.1.type])
  cases hcurrent.1 with
  | plain hplain =>
    cases current with
    | number a =>
      cases hoperand.1 with
      | plain _ =>
        cases operand with
        | number b =>
          dsimp only
          cases op.arithmetic.apply a b with
          | ok n => exact hm₁.store (.of_plain rfl)
          | error err => exact hm₁.fail rfl
        | _ => cases op <;> exact hfail
      | _ => cases op <;> exact hfail
    | text a =>
      cases op with
      | add =>
        dsimp only
        rw [hm₁.render hoperand]
        exact hm₁.store (.of_plain rfl)
      | _ => exact hfail
    | collection c => cases hplain
    | dictionary c => cases hplain
    | groups c => cases hplain
    | _ => cases op <;> exact hfail
  | collection _ =>
    have hitems := hm₁.world.heap.list hcurrent
    -- Whatever is not a collection is added as one item.
    have hitem : EndsAlike p left right m₁.world.heap
        (m₁.withHeap (m₁.world.heap.setList _ (m₁.world.heap.lists.get _ ++ [operand]))).done
        (m₁'.withHeap (m₁'.world.heap.setList _ (m₁'.world.heap.lists.get _ ++ [operand']))).done :=
      hm₁.write (Heap.grows_setList _ _ _)
        (hm₁.world.heap.setList hcurrent (List.rel_append hitems (.cons hoperand .nil)))
    cases op with
    | add =>
      cases hoperand.1 with
      | plain hplain =>
        cases operand with
        | collection c => cases hplain
        | _ => exact hitem
      | collection _ =>
        exact hm₁.write (Heap.grows_setList _ _ _) (hm₁.world.heap.setList hcurrent
          (List.rel_append hitems (hm₁.world.heap.list hoperand)))
      | _ => exact hitem
    | sub =>
      exact hm₁.write (Heap.grows_setList _ _ _)
        (hm₁.world.heap.setList hcurrent (hm₁.world.heap.eraseFirst hoperand hitems))
    | _ => exact hfail
  | _ => cases op <;> exact hfail

theorem returnWith {value : Option Checked} (hvalue : ∀ e ∈ value, e.Standard) :
    EndsAlike p left right m.world.heap (m.returnWith line value) (m'.returnWith line value) := by
  cases value with
  | none => exact ⟨rfl, hm, .refl _⟩
  | some e =>
    refine hm.withValue (hvalue e rfl) fun v v' m₁ m₁' hm₁ hv => ?_
    rcases rel_eq_or (hm₁.vars.set? Name.returnSlot hv) with ⟨h₁, h₂⟩ | ⟨_, _, h₁, h₂, hvars⟩
    · rw [h₁, h₂]
      exact hm₁.fail rfl
    · rw [h₁, h₂]
      exact ⟨rfl, hm₁.withVars hvars, .refl _⟩

theorem callFunction (he : e.Standard) :
    EndsAlike p left right m.world.heap (m.callFunction line e) (m'.callFunction line e) :=
  hm.withValue he fun _ _ _ _ hm₁ _ => hm₁.done

/-- A block goes to both queues, with the variables of now. -/
theorem schedule {q q' : Queue DelayedBlock} (hq : m.queue = some q) (hq' : m'.queue = some q')
    (n : Nat) {description description' : String} (hdescription : description' = description)
    (body : List Statement) :
    Alike p left right { m with queue := some (q.schedule n description (m.suspend body)) }
      { m' with queue := some (q'.schedule n description' (m'.suspend body)) } := by
  obtain ⟨l, l', hl, hqueue, hqueue'⟩ := hm.requests
  have hblock : (m.suspend body).Alike p.Joins (m'.suspend body) :=
    ⟨hm.program, rfl, hm.vars.snapshot.imp fun _ _ hv => hv.1⟩
  have hschedule : ∀ {start : Machine} {now : Queue DelayedBlock} {requests} {d : String} (b),
      some now = start.queue.map (·.scheduleAll requests) →
      some (now.schedule n d b) = start.queue.map (·.scheduleAll (requests ++ [(n, d, b)])) := by
    intro start now requests d b hnow
    obtain ⟨q₀, hq₀, rfl⟩ := Option.map_eq_some_iff.mp hnow.symm
    rw [hq₀, Option.map_some, Queue.scheduleAll_append]
    rfl
  refine ⟨hm.world, hm.vars, hm.program, rfl, _, _, ?_, hschedule _ (hq ▸ hqueue),
    hschedule _ (hq' ▸ hqueue')⟩
  exact List.rel_append hl (.cons ⟨rfl, hdescription, hblock⟩ .nil)

theorem delay (he : e.Standard) (body : List Statement) :
    EndsAlike p left right m.world.heap (m.delay line e body) (m'.delay line e body) := by
  refine hm.withValue he fun v v' m₁ m₁' hm₁ hv => ?_
  have hfail : EndsAlike p left right m₁.world.heap
      (m₁.fail line (.invalidDelay (m₁.render v)))
      (m₁'.fail line (.invalidDelay (m₁'.render v'))) :=
    hm₁.fail (by rw [hm₁.render hv])
  cases hv.1 with
  | plain _ =>
    cases v with
    | number n =>
      dsimp only
      split
      · have hscheduler := hm₁.scheduler
        cases hq : m₁.queue with
        | none =>
          rw [hq] at hscheduler
          rw [Option.not_isSome_iff_eq_none.mp (Bool.eq_false_iff.mp hscheduler)]
          exact hm₁.fail rfl
        | some q =>
          rw [hq] at hscheduler
          obtain ⟨q', hq'⟩ := Option.isSome_iff_exists.mp hscheduler
          rw [hq']
          exact ⟨rfl, hm₁.schedule hq hq' _ (by rw [hm₁.program]) body, .refl _⟩
      · exact hfail
    | _ => exact hfail
  | _ => exact hfail

/-! ### Changes of structural variables -/

theorem keyText {k k' : Value} (hk : p.At m.world.heap k k') :
    Agree (· = ·) (m.keyText k) (m'.keyText k') := by
  unfold Machine.keyText
  rw [hk.1.text?, hm.render hk]
  exact .refl _

theorem place {i i' : Value} (hi : p.At m.world.heap i i') (size : Nat) :
    Agree (· = ·) (m.place i size) (m'.place i' size) := by
  have hfail : Agree (· = ·) (.error (.indexNotNumber (m.render i)) : Except RunFault Nat)
      (.error (.indexNotNumber (m'.render i'))) := by
    rw [hm.render hi]
    exact .refl _
  cases hi.1 with
  | plain _ =>
    cases i with
    | number n => exact .refl _
    | _ => exact hfail
  | _ => exact hfail

/-- The values of some expressions. -/
theorem values {es : List Checked} (hes : ∀ e ∈ es, e.Standard) :
    (∃ vs vs' m₁ m₁', m.values es = (.ok vs, m₁) ∧ m'.values es = (.ok vs', m₁') ∧
      Alike p left right m₁ m₁' ∧ m.world.heap.Grows m₁.world.heap ∧
      List.Forall₂ (p.At m₁.world.heap) vs vs') ∨
    ∃ err m₁ m₁', m.values es = (.error err, m₁) ∧ m'.values es = (.error err, m₁') ∧
      Alike p left right m₁ m₁' ∧ m.world.heap.Grows m₁.world.heap := by
  induction es generalizing m m' with
  | nil => exact Or.inl ⟨[], [], m, m', rfl, rfl, hm, .refl _, .nil⟩
  | cons e es ih =>
    have hmore : ∀ e ∈ es, e.Standard := fun e he => hes e (List.mem_cons_of_mem _ he)
    unfold Machine.values
    rcases hm.eval (hes e List.mem_cons_self) with ⟨v, v', m₁, m₁', h₁, h₂, hm₁, hgrows, hv⟩ |
      ⟨err, m₁, m₁', h₁, h₂, hm₁, hgrows⟩
    · rw [h₁, h₂]
      dsimp only
      rcases ih hm₁ hmore with ⟨vs, vs', m₂, m₂', h₃, h₄, hm₂, hgrows₂, hvs⟩ |
        ⟨err, m₂, m₂', h₃, h₄, hm₂, hgrows₂⟩
      · rw [h₃, h₄]
        exact Or.inl ⟨v :: vs, v' :: vs', m₂, m₂', rfl, rfl, hm₂, hgrows.trans hgrows₂,
          .cons (hv.mono hgrows₂) hvs⟩
      · rw [h₃, h₄]
        exact Or.inr ⟨err, m₂, m₂', rfl, rfl, hm₂, hgrows.trans hgrows₂⟩
    · rw [h₁, h₂]
      exact Or.inr ⟨err, m₁, m₁', rfl, rfl, hm₁, hgrows⟩

end Alike

theorem applyChange_of_plain (m : Machine) (line : Nat) (name : String) (c : Change)
    (hv : v.shape = 0) (values : List Value) :
    m.applyChange line name c v values = m.fail line (.cannotChange name v.type) := by
  cases c <;> cases v <;> first | rfl | cases hv

namespace Alike

variable (hm : Alike p left right m m')

include hm

theorem require {α : Type} {r r' : Except RunFault α} (hr : Agree (· = ·) r r')
    {go go' : α → Ending} (hgo : ∀ a, EndsAlike p left right m.world.heap (go a) (go' a)) :
    EndsAlike p left right m.world.heap (m.require line r go) (m'.require line r' go') := by
  cases hr with
  | ok heq =>
    cases heq
    exact hgo _
  | error fault => exact hm.fail rfl

variable {c c' : Nat} {values values' : List Value}
  (hvalues : List.Forall₂ (p.At m.world.heap) values values')

include hvalues

/-- The changes of a collection. -/
theorem change_collection (change : Change)
    (htarget : p.At m.world.heap (.collection c) (.collection c')) :
    EndsAlike p left right m.world.heap (m.applyChange line name change (.collection c) values)
      (m'.applyChange line name change (.collection c') values') := by
  have hitems := hm.world.heap.list htarget
  cases change with
  | add e =>
    rcases hvalues with _ | ⟨hv, _ | ⟨hw, hmore⟩⟩
    · exact hm.fail rfl
    · exact hm.write (Heap.grows_setList _ _ _)
        (hm.world.heap.setList htarget (List.rel_append hitems (.cons hv .nil)))
    · exact hm.fail rfl
  | addRange e =>
    rcases hvalues with _ | @⟨v, v', _, _, hv, _ | ⟨hw, hmore⟩⟩
    · exact hm.fail rfl
    · have hnot : EndsAlike p left right m.world.heap (m.fail line (.notRange (m.render v)))
          (m'.fail line (.notRange (m'.render v'))) := hm.fail (by rw [hm.render hv])
      cases hv.1 with
      | plain hplain =>
        cases v with
        | collection c => cases hplain
        | _ => exact hnot
      | collection _ =>
        exact hm.write (Heap.grows_setList _ _ _) (hm.world.heap.setList htarget
          (List.rel_append hitems (hm.world.heap.list hv)))
      | _ => exact hnot
    · cases hv.1 with
      | plain _ => cases v <;> exact hm.fail rfl
      | _ => exact hm.fail rfl
  | remove e =>
    rcases hvalues with _ | ⟨hv, _ | ⟨hw, hmore⟩⟩
    · exact hm.fail rfl
    · exact hm.write (Heap.grows_setList _ _ _)
        (hm.world.heap.setList htarget (hm.world.heap.eraseFirst hv hitems))
    · exact hm.fail rfl
  | removeAt e =>
    rcases hvalues with _ | ⟨hv, _ | ⟨hw, hmore⟩⟩
    · exact hm.fail rfl
    · rw [Machine.applyChange, Machine.applyChange, ← hitems.length_eq]
      refine hm.require (hm.place hv _) fun i => ?_
      obtain ⟨hheap, hnew⟩ := hm.world.heap.newList (forall₂_eraseIdx hitems i)
      have hgrows := (m.world.heap.keeps_newList ((m.world.heap.lists.get c).eraseIdx i)).grows
      exact ((hm.withHeap hgrows hheap).store hnew).grow hgrows
    · exact hm.fail rfl
  | clear => exact hm.write (Heap.grows_setList _ _ _) (hm.world.heap.setList htarget .nil)
  | set k e =>
    rcases hvalues with _ | ⟨hi, _ | ⟨hv, _ | ⟨hw, hmore⟩⟩⟩
    · exact hm.fail rfl
    · exact hm.fail rfl
    · rw [Machine.applyChange, Machine.applyChange, ← hitems.length_eq]
      exact hm.require (hm.place hi _) fun i => hm.write (Heap.grows_setList _ _ _)
        (hm.world.heap.setList htarget (forall₂_set hitems i hv))
    · exact hm.fail rfl
  | _ => exact hm.fail rfl

/-- The changes of a dictionary. -/
theorem change_dictionary (change : Change)
    (htarget : p.At m.world.heap (.dictionary c) (.dictionary c')) :
    EndsAlike p left right m.world.heap (m.applyChange line name change (.dictionary c) values)
      (m'.applyChange line name change (.dictionary c') values') := by
  have hd := hm.world.heap.dict htarget
  cases change with
  | clear =>
    exact hm.write (Heap.grows_setDict _ _ _)
      (hm.world.heap.setDict htarget Dict.alike_empty)
  | set k e =>
    rcases hvalues with _ | ⟨hk, _ | ⟨hv, _ | ⟨hw, hmore⟩⟩⟩
    · exact hm.fail rfl
    · exact hm.fail rfl
    · exact hm.require (hm.keyText hk) fun key => hm.write (Heap.grows_setDict _ _ _)
        (hm.world.heap.setDict htarget (hd.insert key hv))
    · exact hm.fail rfl
  | removeKey k =>
    rcases hvalues with _ | ⟨hk, _ | ⟨hw, hmore⟩⟩
    · exact hm.fail rfl
    · exact hm.require (hm.keyText hk) fun key => hm.write (Heap.grows_setDict _ _ _)
        (hm.world.heap.setDict htarget (hd.erase key))
    · exact hm.fail rfl
  | _ => exact hm.fail rfl

/-- The changes of groups. -/
theorem change_groups (change : Change)
    (htarget : p.At m.world.heap (.groups c) (.groups c')) :
    EndsAlike p left right m.world.heap (m.applyChange line name change (.groups c) values)
      (m'.applyChange line name change (.groups c') values') := by
  have hd := hm.world.heap.group htarget
  cases change with
  | addKeyed k e =>
    rcases hvalues with _ | ⟨hk, _ | ⟨hv, _ | ⟨hw, hmore⟩⟩⟩
    · exact hm.fail rfl
    · exact hm.fail rfl
    · refine hm.require (hm.keyText hk) fun key => ?_
      have hold : List.Forall₂ (p.At m.world.heap) (((m.world.heap.groups.get c).find? key).getD [])
          (((m'.world.heap.groups.get c').find? key).getD []) := by
        rcases rel_eq_or (hd.find? key) with ⟨h₁, h₂⟩ | ⟨_, _, h₁, h₂, hfound⟩
        · rw [h₁, h₂]
          exact .nil
        · rw [h₁, h₂]
          exact hfound
      exact hm.write (Heap.grows_setGroups _ _ _) (hm.world.heap.setGroups htarget
        (hd.insert key (List.rel_append hold (.cons hv .nil))))
    · exact hm.fail rfl
  | clear =>
    exact hm.write (Heap.grows_setGroups _ _ _)
      (hm.world.heap.setGroups htarget Dict.alike_empty)
  | removeKey k =>
    rcases hvalues with _ | ⟨hk, _ | ⟨hw, hmore⟩⟩
    · exact hm.fail rfl
    · exact hm.require (hm.keyText hk) fun key => hm.write (Heap.grows_setGroups _ _ _)
        (hm.world.heap.setGroups htarget (hd.erase key))
    · exact hm.fail rfl
  | _ => exact hm.fail rfl

/-- The change of a target, whatever it is. -/
theorem applyChange (line : Nat) (name : String) (change : Change) {target target' : Value}
    (htarget : p.At m.world.heap target target') :
    EndsAlike p left right m.world.heap (m.applyChange line name change target values)
      (m'.applyChange line name change target' values') := by
  cases htarget.1 with
  | plain hplain =>
    rw [applyChange_of_plain m line name change hplain,
      applyChange_of_plain m' line name change hplain]
    exact hm.fail rfl
  | collection _ => exact hm.change_collection hvalues change htarget
  | dictionary _ => exact hm.change_dictionary hvalues change htarget
  | groups _ => exact hm.change_groups hvalues change htarget

omit hvalues

theorem change {c : Change} (hc : ∀ e ∈ c.expressions, e.Standard) :
    EndsAlike p left right m.world.heap (m.change line name c) (m'.change line name c) := by
  unfold Machine.change
  rcases hm.values hc with ⟨vs, vs', m₁, m₁', h₁, h₂, hm₁, hgrows, hvs⟩ |
    ⟨err, m₁, m₁', h₁, h₂, hm₁, hgrows⟩
  · rw [h₁, h₂]
    refine (hm₁.withVariable fun target target' htarget => ?_).grow hgrows
    exact hm₁.applyChange hvs line name c htarget
  · rw [h₁, h₂]
    exact (hm₁.fail rfl).grow hgrows

end Alike

end Machine

end WorldScript
