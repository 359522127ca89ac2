import WorldScript.Proofs.Run.Frames

/-! # What statements do not notice

An expression sees the values of variables and nothing else of the space that they are in. A
statement can also declare and assign, and a `delay` takes the variables along; still, it cannot
tell how the frames are laid out. So a map of spaces that these operations commute with is not
noticed by a statement without blocks, nor in one turn of a statement with blocks.

* `Space.ShowsSame`, `Space.Transparent`: such maps.
* `Statement.start_mapVars`, `Statement.turn_mapVars`: the beginning of a statement, and a turn. -/

namespace WorldScript

/-- Expressions see the values of variables and nothing else of the space. -/
def Space.ShowsSame (f : Space → Space) : Prop := ∀ s name, (f s).value? name = s.value? name

/-- Declarations and assignments do the same before the map and after it, and the variables to take
along are the same. -/
structure Space.Transparent (f : Space → Space) : Prop where
  value? : ShowsSame f
  declare? : ∀ s name type v, (f s).declare? name type v = (s.declare? name type v).map f
  set? : ∀ s name v, (f s).set? name v = (s.set? name v).map f
  snapshot : ∀ s, (f s).snapshot = s.snapshot

/-- The state with another space. -/
def Machine.mapVars (f : Space → Space) (m : Machine) : Machine := { m with vars := f m.vars }

/-- The end in the state with another space. -/
def Ending.mapVars (f : Space → Space) (e : Ending) : Ending := (e.1, e.2.mapVars f)

/-- The beginning in the state with another space. -/
def Start.mapVars (f : Space → Space) : Start → Start
  | .ended e => .ended (Ending.mapVars f e)
  | .turns stage m => .turns stage (m.mapVars f)

/-- The turn in the state with another space. -/
def Turn.mapVars (f : Space → Space) : Turn → Turn
  | .ended e => .ended (Ending.mapVars f e)
  | .block e stage m => .block e stage (m.mapVars f)

namespace Checked

variable {s t : Space}

mutual

theorem eval_congr (h : ∀ name, s.value? name = t.value? name) :
    ∀ e : Checked, e.eval s = e.eval t
  | literal _ => rfl
  | var name type => by simp only [eval, h]
  | negate e => by simp only [eval, eval_congr h e]
  | not e => by simp only [eval, eval_congr h e]
  | arithmetic op l r => by simp only [eval, eval_congr h l, eval_congr h r]
  | concat l r => by simp only [eval, eval_congr h l, eval_congr h r]
  | compare op l r => by simp only [eval, eval_congr h l, eval_congr h r]
  | and l r => by simp only [eval, eval_congr h l, eval_congr h r]
  | or l r => by simp only [eval, eval_congr h l, eval_congr h r]
  | index e k type => by simp only [eval, eval_congr h e, eval_congr h k]
  | call f args => by simp only [eval, evalAll_congr h args]

theorem evalAll_congr (h : ∀ name, s.value? name = t.value? name) :
    ∀ es : List Checked, evalAll s es = evalAll t es
  | [] => rfl
  | e :: es => by simp only [evalAll, eval_congr h e, evalAll_congr h es]

end

end Checked

namespace Machine

variable {f : Space → Space} {m : Machine} {line : Nat}

@[simp] theorem world_mapVars (f : Space → Space) (m : Machine) :
    (m.mapVars f).world = m.world := rfl

@[simp] theorem queue_mapVars (f : Space → Space) (m : Machine) :
    (m.mapVars f).queue = m.queue := rfl

@[simp] theorem keyText_mapVars (f : Space → Space) (m : Machine) (key : Value) :
    (m.mapVars f).keyText key = m.keyText key := rfl

@[simp] theorem place_mapVars (f : Space → Space) (m : Machine) (index : Value) (size : Nat) :
    (m.mapVars f).place index size = m.place index size := rfl

@[simp] theorem vars_mapVars (f : Space → Space) (m : Machine) :
    (m.mapVars f).vars = f m.vars := rfl

section ShowsSame

variable (hf : Space.ShowsSame f)

include hf

theorem eval_mapVars (m : Machine) (e : Checked) :
    (m.mapVars f).eval e = ((m.eval e).1, (m.eval e).2.mapVars f) := by
  simp only [eval, Checked.run, mapVars, Checked.eval_congr (hf m.vars) e]

theorem condition_mapVars_error {test : Checked} {ending : Ending}
    (h : m.condition line test = .error ending) :
    (m.mapVars f).condition line test = .error (Ending.mapVars f ending) := by
  unfold condition at h ⊢
  rw [eval_mapVars hf]
  cases heval : m.eval test with
  | mk r m' =>
    rw [heval] at h
    cases r with
    | error err =>
      cases h
      rfl
    | ok v => cases v <;> cases h <;> rfl

theorem condition_mapVars_ok {test : Checked} {b : Bool} {m' : Machine}
    (h : m.condition line test = .ok (b, m')) :
    (m.mapVars f).condition line test = .ok (b, m'.mapVars f) := by
  unfold condition
  rw [eval_mapVars hf, Statement.eval_of_condition h]

theorem withValue_mapVars (m : Machine) (e : Checked) {go : Value → Machine → Ending}
    (hgo : ∀ v m', go v (m'.mapVars f) = Ending.mapVars f (go v m')) :
    (m.mapVars f).withValue line e go = Ending.mapVars f (m.withValue line e go) := by
  unfold withValue
  rw [eval_mapVars hf]
  rcases m.eval e with ⟨err | v, m'⟩
  · rfl
  · exact hgo v m'

theorem withVariable_mapVars (m : Machine) (name : String) {go go' : Value → Ending}
    (hgo : ∀ v, go' v = Ending.mapVars f (go v)) :
    (m.mapVars f).withVariable line name go' =
      Ending.mapVars f (m.withVariable line name go) := by
  unfold withVariable
  rw [show (m.mapVars f).vars.value? name = m.vars.value? name from hf m.vars name]
  cases m.vars.value? name with
  | none => rfl
  | some v => exact hgo v

theorem values_mapVars (m : Machine) (es : List Checked) :
    (m.mapVars f).values es = ((m.values es).1, (m.values es).2.mapVars f) := by
  induction es generalizing m with
  | nil => rfl
  | cons e es ih =>
    simp only [values]
    rw [eval_mapVars hf]
    rcases m.eval e with ⟨err | v, m'⟩
    · rfl
    · simp only
      rw [ih m']
      rcases m'.values es with ⟨err | vs, m''⟩ <;> rfl

end ShowsSame

theorem require_mapVars {α : Type} (m : Machine) (r : Except RunFault α) {go go' : α → Ending}
    (hgo : ∀ a, go' a = Ending.mapVars f (go a)) :
    (m.mapVars f).require line r go' = Ending.mapVars f (m.require line r go) := by
  cases r with
  | ok a => exact hgo a
  | error fault => rfl

/-! ### Statements without blocks -/

variable (hf : Space.Transparent f)

include hf

theorem store_mapVars (m : Machine) (line : Nat) (name : String) (v : Value) :
    (m.mapVars f).store line name v = Ending.mapVars f (m.store line name v) := by
  unfold store
  rw [show (m.mapVars f).vars.set? name v = _ from hf.set? m.vars name v]
  cases m.vars.set? name v <;> rfl

theorem introduce_mapVars (m : Machine) (line : Nat) (name : String) (type : Ty) (v : Value) :
    (m.mapVars f).introduce line name type v = Ending.mapVars f (m.introduce line name type v) := by
  unfold introduce
  rw [show (m.mapVars f).vars.declare? name type v = _ from hf.declare? m.vars name type v]
  cases m.vars.declare? name type v <;> rfl

theorem declare_mapVars (m : Machine) (line : Nat) (name : String) (type : Ty)
    (initial : Option Checked) :
    (m.mapVars f).declare line name type initial =
      Ending.mapVars f (m.declare line name type initial) := by
  cases initial with
  | none => exact introduce_mapVars hf (m.withHeap (m.world.heap.initial type).2) line name type _
  | some e =>
    exact withValue_mapVars hf.value? m e fun v m' => introduce_mapVars hf m' line name type v

theorem compound_mapVars (m : Machine) (line : Nat) (name : String) (op : CompoundOp)
    (value : Checked) :
    (m.mapVars f).compound line name op value =
      Ending.mapVars f (m.compound line name op value) := by
  refine withValue_mapVars hf.value? m value fun operand m' => ?_
  refine withVariable_mapVars hf.value? m' name fun current => ?_
  dsimp only
  split
  · rename_i a b
    cases op.arithmetic.apply a b with
    | ok n => exact store_mapVars hf m' line name _
    | error e => rfl
  · exact store_mapVars hf m' line name _
  all_goals rfl

theorem assign_mapVars (m : Machine) (line : Nat) (name : String) (value : Checked) :
    (m.mapVars f).assign line name value = Ending.mapVars f (m.assign line name value) :=
  withValue_mapVars hf.value? m value fun v m' => store_mapVars hf m' line name v

theorem callFunction_mapVars (m : Machine) (line : Nat) (e : Checked) :
    (m.mapVars f).callFunction line e = Ending.mapVars f (m.callFunction line e) :=
  withValue_mapVars hf.value? m e fun _ _ => rfl

theorem returnWith_mapVars (m : Machine) (line : Nat) (value : Option Checked) :
    (m.mapVars f).returnWith line value = Ending.mapVars f (m.returnWith line value) := by
  cases value with
  | none => rfl
  | some e =>
    refine withValue_mapVars hf.value? m e fun v m' => ?_
    rw [show (m'.mapVars f).vars.set? Name.returnSlot v = _ from hf.set? m'.vars _ v]
    cases m'.vars.set? Name.returnSlot v <;> rfl

theorem delay_mapVars (m : Machine) (line : Nat) (duration : Checked) (body : List Statement) :
    (m.mapVars f).delay line duration body = Ending.mapVars f (m.delay line duration body) := by
  refine withValue_mapVars hf.value? m duration fun v m' => ?_
  cases v with
  | number n =>
    have hsuspend : (m'.mapVars f).suspend body = m'.suspend body := by
      simp only [suspend, mapVars, hf.snapshot]
    simp only [hsuspend, queue_mapVars]
    split
    · cases m'.queue <;> rfl
    · rfl
  | _ => rfl

theorem applyChange_mapVars (m : Machine) (line : Nat) (name : String) (c : Change) (target : Value)
    (values : List Value) :
    (m.mapVars f).applyChange line name c target values =
      Ending.mapVars f (m.applyChange line name c target values) := by
  unfold applyChange
  simp only [world_mapVars, keyText_mapVars, place_mapVars]
  split
  -- the one change that gives the variable another value
  case h_6 => exact require_mapVars m _ fun i => store_mapVars hf (m.withHeap _) line name _
  case h_2 | h_10 | h_11 | h_12 | h_13 => exact require_mapVars m _ fun _ => rfl
  all_goals rfl

theorem change_mapVars (m : Machine) (line : Nat) (name : String) (c : Change) :
    (m.mapVars f).change line name c = Ending.mapVars f (m.change line name c) := by
  unfold change
  rw [values_mapVars hf.value?]
  rcases m.values c.expressions with ⟨err | values, m'⟩
  · rfl
  · exact withVariable_mapVars hf.value? m' name fun target =>
      applyChange_mapVars hf m' line name c target values

end Machine

namespace Statement

variable {f : Space → Space}

/-! ### One turn -/

theorem armTurn_mapVars (hf : Space.ShowsSame f) (otherwise : Option (List Statement))
    (arms : List Section) (m : Machine) :
    armTurn otherwise arms (m.mapVars f) = (armTurn otherwise arms m).mapVars f := by
  induction arms generalizing m with
  | nil => cases otherwise <;> rfl
  | cons arm rest ih =>
    obtain ⟨line, test, body⟩ := arm
    simp only [armTurn]
    cases hcondition : m.condition line test with
    | error ending => rw [Machine.condition_mapVars_error hf hcondition]; rfl
    | ok r =>
      obtain ⟨b, m'⟩ := r
      rw [Machine.condition_mapVars_ok hf hcondition]
      cases b with
      | false => exact ih m'
      | true => rfl

theorem caseTurn_mapVars (hf : Space.ShowsSame f) (v : Value)
    (otherwise : Option (List Statement)) (cases : List Section) (m : Machine) :
    caseTurn v otherwise cases (m.mapVars f) = (caseTurn v otherwise cases m).mapVars f := by
  induction cases generalizing m with
  | nil => cases otherwise <;> rfl
  | cons c rest ih =>
    obtain ⟨line, test, body⟩ := c
    simp only [caseTurn]
    rw [Machine.eval_mapVars hf]
    rcases m.eval test with ⟨err | w, m'⟩
    · rfl
    · show (if m'.world.heap.same w v then _ else _) =
        Turn.mapVars f (if m'.world.heap.same w v then _ else _)
      by_cases hsame : m'.world.heap.same w v = true
      · rw [if_pos hsame, if_pos hsame]
        rfl
      · rw [if_neg hsame, if_neg hsame]
        exact ih m'

theorem turn_mapVars (hf : Space.ShowsSame f) (s : Statement) (stage : Stage) (m : Machine) :
    s.turn stage (m.mapVars f) = (s.turn stage m).mapVars f := by
  unfold turn
  split
  · exact armTurn_mapVars hf _ _ m
  · split <;> rfl
  · rfl
  · rename_i line test body
    cases hcondition : m.condition line test with
    | error ending => rw [Machine.condition_mapVars_error hf hcondition]; rfl
    | ok r =>
      obtain ⟨b, m'⟩ := r
      rw [Machine.condition_mapVars_ok hf hcondition]
      cases b <;> rfl
  · exact caseTurn_mapVars hf _ _ _ m
  · rfl

theorem start_mapVars (hf : Space.Transparent f) (s : Statement) (m : Machine) :
    s.start (m.mapVars f) = (s.start m).mapVars f := by
  cases s with
  | declare line name type initial =>
    exact congrArg Start.ended (Machine.declare_mapVars hf m line name type initial)
  | assign line name value =>
    exact congrArg Start.ended (Machine.assign_mapVars hf m line name value)
  | compound line name op value =>
    exact congrArg Start.ended (Machine.compound_mapVars hf m line name op value)
  | returnWith line value => exact congrArg Start.ended (Machine.returnWith_mapVars hf m line value)
  | change line name c => exact congrArg Start.ended (Machine.change_mapVars hf m line name c)
  | call line e => exact congrArg Start.ended (Machine.callFunction_mapVars hf m line e)
  | delay line duration body =>
    exact congrArg Start.ended (Machine.delay_mapVars hf m line duration body)
  | forCount line name count body =>
    simp only [start]
    rw [Machine.eval_mapVars hf.value?]
    rcases m.eval count with ⟨err | v, m'⟩
    · rfl
    · cases v <;> rfl
  | forEach line name element items body =>
    simp only [start]
    rw [Machine.eval_mapVars hf.value?]
    rcases m.eval items with ⟨err | v, m'⟩
    · rfl
    · cases v <;> rfl
  | switch line value cases otherwise =>
    simp only [start]
    rw [Machine.eval_mapVars hf.value?]
    rcases m.eval value with ⟨err | v, m'⟩ <;> rfl
  | _ => rfl

end Statement

end WorldScript
