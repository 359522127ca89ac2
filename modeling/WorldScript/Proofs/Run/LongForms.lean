import WorldScript.Proofs.Compile.Counterparts
import WorldScript.Proofs.Expr.Local
import WorldScript.Proofs.Expr.Safe
import WorldScript.Proofs.Program.Flat

/-! # What compound assignments stand for

A compound assignment to a Number or a Text variable stands for the assignment of an expression with
the variable on its left. The two do the same, but for one message: if the operand turns out not to
be a number, the one says that its operator cannot be applied, the other that a number was expected.

A compound assignment to a collection stands for one of its counterparts. It looks at the value
that it got, where the counterpart was chosen for the type of the expression; so the two do the same
in states in which values have the structure of their types.

* `Machine.compound_number`, `Machine.compound_text`: numbers and texts.
* `Counterpart.run_eq`: collections.
* `Statement.compound_longForms`: all of it together. -/

namespace WorldScript

namespace Eval

theorem run_number (n : Float) (w : World) : (number (.number n)).run.run w = (.ok n, w) := rfl

theorem run_number_of_none {v : Value} (h : v.number? = none) (w : World) :
    (number v).run.run w = (.error (.notNumber (w.heap.render v)), w) := by
  rw [number, h]
  rfl

end Eval

open Eval (run_bind_ok run_bind_error run_number run_number_of_none)

/-! ### Numbers and texts -/

/-- The operator of the long form. -/
def CompoundOp.binary : CompoundOp → BinaryOp
  | add => .add
  | sub => .sub
  | mul => .mul
  | div => .div

namespace Machine

variable {m m₁ : Machine} {line : Nat} {x : String} {type : Ty} {e : Checked}

section Number

variable (op : Arithmetic) {a : Float} (hx : m.vars.value? x = some (.number a))

include hx

theorem eval_arithmetic_of_error {err : EvalError} (he : m.eval e = (.error err, m₁)) :
    m.eval (.arithmetic op (.var x type) e) = (.error err, m₁) := by
  obtain ⟨hvar, -⟩ := run_of_eval (eval_var type hx)
  obtain ⟨hrun, hm₁⟩ := run_of_eval he
  refine eval_of_run ?_ hm₁
  rw [Checked.eval, run_bind_ok hvar, run_bind_ok (run_number a _), run_bind_error hrun]

theorem eval_arithmetic_of_number {b : Float} (he : m.eval e = (.ok (.number b), m₁)) :
    m.eval (.arithmetic op (.var x type) e) = ((op.apply a b).map Value.number, m₁) := by
  obtain ⟨hvar, -⟩ := run_of_eval (eval_var type hx)
  obtain ⟨hrun, hm₁⟩ := run_of_eval he
  refine eval_of_run ?_ hm₁
  rw [Checked.eval, run_bind_ok hvar, run_bind_ok (run_number a _), run_bind_ok hrun,
    run_bind_ok (run_number b _)]
  cases op.apply a b <;> rfl

theorem eval_arithmetic_of_none {v : Value} (hv : v.number? = none)
    (he : m.eval e = (.ok v, m₁)) :
    m.eval (.arithmetic op (.var x type) e) = (.error (.notNumber (m₁.render v)), m₁) := by
  obtain ⟨hvar, -⟩ := run_of_eval (eval_var type hx)
  obtain ⟨hrun, hm₁⟩ := run_of_eval he
  refine eval_of_run ?_ hm₁
  rw [Checked.eval, run_bind_ok hvar, run_bind_ok (run_number a _), run_bind_ok hrun,
    run_bind_error (run_number_of_none hv _)]
  rfl

end Number

/-- The operand is not a number. Both forms fail on the line and leave the same state, each with a
message of its own. -/
def RefusesOperand (m : Machine) (line : Nat) (x : String) (op : CompoundOp) (e long : Checked) :
    Prop :=
  ∃ operand m₁, m.eval e = (.ok operand, m₁) ∧ operand.number? = none ∧
    m.compound line x op e = m₁.fail line (.wrongOperator op .number) ∧
    m.assign line x long = m₁.fail line (.eval (.notNumber (m₁.render operand)))

/-- A compound assignment to a number. -/
theorem compound_number (op : CompoundOp) {a : Float} (hx : m.vars.value? x = some (.number a)) :
    m.compound line x op e = m.assign line x (.arithmetic op.arithmetic (.var x type) e) ∨
      m.RefusesOperand line x op e (.arithmetic op.arithmetic (.var x type) e) := by
  cases he : m.eval e with
  | mk r m₁ =>
  have hx₁ : m₁.vars.value? x = some (.number a) := vars_of_eval he ▸ hx
  cases r with
  | error err =>
    left
    simp only [compound, assign, withValue, he, eval_arithmetic_of_error op.arithmetic hx he]
  | ok v =>
    cases v with
    | number b =>
      left
      have hlong : m.eval (.arithmetic op.arithmetic (.var x type) e) = _ :=
        eval_arithmetic_of_number op.arithmetic hx he
      simp only [compound, assign, withValue, he, hlong, withVariable, hx₁]
      cases op.arithmetic.apply a b <;> rfl
    | _ =>
      refine Or.inr ⟨_, m₁, he, rfl, ?_, ?_⟩
      · simp only [compound, withValue, he, withVariable, hx₁]
        rfl
      · simp only [assign, withValue, eval_arithmetic_of_none op.arithmetic hx rfl he]

/-- A compound assignment to a text. -/
theorem compound_text {a : String} (hx : m.vars.value? x = some (.text a)) :
    m.compound line x .add e = m.assign line x (.concat (.var x type) e) := by
  cases he : m.eval e with
  | mk r m₁ =>
  have hx₁ : m₁.vars.value? x = some (.text a) := vars_of_eval he ▸ hx
  obtain ⟨hvar, -⟩ := run_of_eval (eval_var type hx)
  obtain ⟨hrun, hm₁⟩ := run_of_eval he
  cases r with
  | error err =>
    have hlong : m.eval (.concat (.var x type) e) = (.error err, m₁) := by
      refine eval_of_run ?_ hm₁
      rw [Checked.eval, run_bind_ok hvar, run_bind_error hrun]
    simp only [compound, assign, withValue, he, hlong]
  | ok v =>
    have hlong : m.eval (.concat (.var x type) e) = (.ok (.text (a ++ m₁.render v)), m₁) := by
      refine eval_of_run ?_ hm₁
      rw [Checked.eval, run_bind_ok hvar, run_bind_ok hrun]
      rfl
    simp only [compound, assign, withValue, he, hlong, withVariable, hx₁]

end Machine

/-! ### The type of the long form -/

/-- A type with a single kind accepts this kind only. -/
theorem Ty.unmarked_eq_of_accepts {t u : Ty} {i : Nat} (hkinds : t.kinds = BitVec.twoPow 14 i)
    (h : t.accepts u = true) : u.unmarked = t.unmarked := by
  have hsame : u.kinds = t.kinds := by
    rcases kinds_of_accepts h with heq | ⟨-, hne, hsub⟩
    · exact heq.symm
    · rw [hkinds] at hsub ⊢
      exact eq_twoPow_of_and_not hne hsub
  rw [unmarked, unmarked, hsame, shape_eq_of_accepts h]

theorem Ty.compoundElement_of_plain {type : Ty} (h : type.shape = 0) :
    type.compoundElement = none := by
  rw [compoundElement, if_neg]
  rw [contains_collection_iff, h]
  decide

/-- The compound assignment computes a new value for a variable of the type: any operator for a
number, `+=` for a text. -/
def CompoundOp.Computes (op : CompoundOp) (type : Ty) : Prop :=
  type.unmarked = .number ∨ (op = .add ∧ type.unmarked = .text)

/-- A number for a Number variable, a text for a Text variable. -/
def Value.IsOf (type : Ty) : Value → Prop
  | .number _ => type.unmarked = .number
  | .text _ => type.unmarked = .text
  | _ => False

section LongForm

variable {op : CompoundOp} {x : String} {type : Ty} {e : Checked}

theorem ofBinary_number (htype : type.unmarked = .number)
    (htakes : Leaf.compoundTakes? op type type.compoundElement e.type = some true) :
    Checked.ofBinary op.binary (.var x type) e =
      .ok (.arithmetic op.arithmetic (.var x type) e) := by
  have haccepts : Ty.number.accepts type = true := by
    rw [← Ty.accepts_unmarked_right, htype]
    decide
  have hplain : type.shape = 0 := congrArg Ty.shape htype
  rw [Ty.compoundElement_of_plain hplain] at htakes
  simp only [Leaf.compoundTakes?, haccepts, if_true, Option.some.injEq] at htakes
  have hleft : (Checked.var x type).plainType = .number := htype
  have hright : e.plainType = .number := Ty.unmarked_eq_of_accepts (i := 1) rfl htakes
  cases op <;> simp [Checked.ofBinary, CompoundOp.binary, CompoundOp.arithmetic, hleft, hright]

theorem ofBinary_text (htype : type.unmarked = .text)
    (htakes : Leaf.compoundTakes? .add type type.compoundElement e.type = some true) :
    Checked.ofBinary .add (.var x type) e = .ok (.concat (.var x type) e) := by
  have haccepts : Ty.number.accepts type = false ∧ Ty.text.accepts type = true := by
    rw [← Ty.accepts_unmarked_right, ← Ty.accepts_unmarked_right Ty.text, htype]
    decide
  have hplain : type.shape = 0 := congrArg Ty.shape htype
  rw [Ty.compoundElement_of_plain hplain] at htakes
  have hright : e.type.isPlain = true := by
    simpa [Leaf.compoundTakes?, haccepts, Ty.isPlain, and_comm] using htakes
  rw [show e.type.isPlain = e.plainType.isPlain from rfl] at hright
  have hleft : (Checked.var x type).plainType = .text := htype
  have hnumber : Ty.text ≠ Ty.number := by decide
  simp [Checked.ofBinary, hleft, hright, hnumber]

/-- The long form of a compound assignment that was accepted is an expression of the type of its
variable, and the two do the same, but for an operand that is not a number. -/
theorem Machine.compound_longForm (hop : op.Computes type)
    (htakes : Leaf.compoundTakes? op type type.compoundElement e.type = some true) :
    ∃ long, Checked.ofBinary op.binary (.var x type) e = .ok long ∧
      type.accepts long.type = true ∧
      ∀ (line : Nat) (m : Machine) (v : Value), m.vars.value? x = some v → v.IsOf type →
        m.compound line x op e = m.assign line x long ∨
          (type.unmarked = .number ∧ m.RefusesOperand line x op e long) := by
  rcases hop with htype | ⟨rfl, htype⟩
  · refine ⟨_, ofBinary_number htype htakes, ?_, ?_⟩
    · rw [← Ty.accepts_unmarked_left, htype]
      rfl
    · intro line m v hx hv
      cases v with
      | number a => exact (compound_number op hx).imp_right fun hrefuses => ⟨htype, hrefuses⟩
      | text a => exact absurd (htype.symm.trans hv) (by decide)
      | _ => cases hv
  · refine ⟨_, ofBinary_text htype htakes, ?_, ?_⟩
    · rw [← Ty.accepts_unmarked_left, htype]
      rfl
    · intro line m v hx hv
      cases v with
      | number a => exact absurd (htype.symm.trans hv) (by decide)
      | text a => exact Or.inl (compound_text hx)
      | _ => cases hv

end LongForm

/-! ### Collections -/

namespace Machine

variable {m : Machine} {line : Nat} {x : String} {e : Checked}

/-- Every expression that is well typed in the scope gives a value of the structure of its type, if
it gives one. -/
def Structured (lib : Library) (scope : Scope) (m : Machine) : Prop :=
  ∀ e : Checked, e.Typed lib scope → ∀ v m', m.eval e = (.ok v, m') → v.shape = e.type.shape

/-- That is so if the variables have values of the structure of their types, with plain elements, and
the functions of the library give such values. -/
theorem structured_of_supplies {lib : Library} {scope : Scope}
    (hlib : lib.Sound fun _ v => v.shape = 0)
    (hm : m.vars.Supplies (fun _ v => v.shape = 0) m.world.heap scope) :
    m.Structured lib scope := by
  intro e he v m' heval
  obtain ⟨-, hyields⟩ := Checked.eval_yields plain_fitting.toCoherent hlib e he m.world hm
  exact (hyields v (congrArg Prod.fst heval)).shape

/-- A change with one operand evaluates it, looks at its variable, and is made. -/
theorem change_eq_withValue {c : Change} (hc : c.expressions = [e]) :
    m.change line x c = m.withValue line e fun v m₁ => m₁.withVariable line x fun target =>
      m₁.applyChange line x c target [v] := by
  cases he : m.eval e with
  | mk r m₁ =>
  cases r with
  | error err => simp only [change, hc, values, withValue, he]
  | ok v => simp only [change, hc, values, withValue, he]

theorem withValue_congr {go go' : Value → Machine → Ending}
    (h : ∀ v m₁, m.eval e = (.ok v, m₁) → go v m₁ = go' v m₁) :
    m.withValue line e go = m.withValue line e go' := by
  unfold withValue
  split
  · rename_i heval
    exact h _ _ heval
  · rfl

theorem withVariable_congr {go go' : Value → Ending}
    (h : ∀ v, m.vars.value? x = some v → go v = go' v) :
    m.withVariable line x go = m.withVariable line x go' := by
  unfold withVariable
  split
  · rename_i hvalue
    exact h _ hvalue
  · rfl

end Machine

namespace Counterpart

/-- **What a compound assignment to a collection does.** It is what its counterpart does. -/
theorem run_eq (c : Counterpart) {lib : Library} {scope : Scope} {m : Machine} {line : Nat}
    {x : String} {type : Ty} {e : Checked} (hm : m.Structured lib scope)
    (hx : scope.lookup x = some type) (hshape : type.shape = 1) (he : e.Typed lib scope)
    (htakes : (c.operand type).accepts e.type = true) :
    m.compound line x c.op e = m.change line x (c.change e) := by
  have hexpressions : (c.change e).expressions = [e] := by cases c <;> rfl
  rw [Machine.change_eq_withValue hexpressions]
  refine Machine.withValue_congr fun v m₁ heval => Machine.withVariable_congr fun target htarget => ?_
  have hvalue : m.vars.value? x = some target := Machine.vars_of_eval heval ▸ htarget
  obtain ⟨cell, rfl⟩ := Value.shape_eq_one
    ((hm (.var x type) hx target m (Machine.eval_var type hvalue)).trans hshape)
  have hv : v.shape = (c.operand type).shape :=
    (hm e he v m₁ heval).trans (Ty.shape_eq_of_accepts htakes).symm
  cases c with
  | addItem =>
    -- a plain value is one item
    cases v with
    | collection more => cases hv
    | _ => rfl
  | addRange =>
    obtain ⟨more, rfl⟩ := Value.shape_eq_one (hv.trans hshape)
    rfl
  | removeItem => rfl

end Counterpart

namespace Statement

/-- **What compound assignments stand for.** First, take a compound assignment that was compiled,
with any operator to a Number variable, or with `+=` to a Text variable. The long form is an
expression of the type of the variable, and in every state in which the variable has a value of its
type, to assign the long form does the same as the compound assignment, but for an operand that
turns out not to be a number: then both fail on the same line in the same state, each with its own
message.

Second, take a collection. A compound assignment to it is accepted iff the line of one of its
counterparts is, and then the two do the same in every state in which values have the structure of
their types. -/
theorem compound_longForms (budget : Nat) (ctx : Context) (scope : Scope) :
    (∀ lines step line x op e type, compileNext budget ctx scope lines = .ok step →
      step.statement = .compound line x op e → scope.lookup x = some type → op.Computes type →
      ∃ long, Checked.ofBinary op.binary (.var x type) e = .ok long ∧
        type.accepts long.type = true ∧
        ∀ limit (m : Machine) v, m.vars.value? x = some v → v.IsOf type →
          (compound line x op e).run limit m = (assign line x long).run limit m ∨
            (type.unmarked = .number ∧ m.RefusesOperand line x op e long)) ∧
    ∀ name value n rest type, Name.isValid name = true → Name.isReserved name = false →
      scope.lookup name = some type → type.shape = 1 →
      value.toList ≠ [] → Text.trim value.toList = value.toList → ∀ op : CompoundOp,
      ((∃ step, compileNext budget ctx scope
          (⟨n, name ++ " " ++ op.symbol ++ " " ++ value⟩ :: rest) = .ok step) ↔
        ∃ c : Counterpart, c.op = op ∧
          ∃ step, compileNext budget ctx scope (⟨n, c.line name value⟩ :: rest) = .ok step) ∧
      ∀ (c : Counterpart) step step', c.op = op →
        compileNext budget ctx scope
          (⟨n, name ++ " " ++ op.symbol ++ " " ++ value⟩ :: rest) = .ok step →
        compileNext budget ctx scope (⟨n, c.line name value⟩ :: rest) = .ok step' →
        step'.remaining = step.remaining ∧ step'.scope = step.scope ∧
          ∀ limit m, Machine.Structured ctx.library scope m →
            step.statement.run limit m = step'.statement.run limit m := by
  refine ⟨?_, ?_⟩
  · intro lines step line x op e type hstep hstatement hlookup hop
    have hplaced := compileNext_wellPlaced hstep
    rw [hstatement] at hplaced
    obtain ⟨type', hlookup', -, htakes⟩ := hplaced
    cases hlookup.symm.trans hlookup'
    obtain ⟨long, hlong, haccepts, hsame⟩ := Machine.compound_longForm (x := x) hop htakes
    refine ⟨long, hlong, haccepts, ?_⟩
    intro limit m v hx hv
    exact (hsame line m v hx hv).imp_left (congrArg some)
  · intro name value n rest type hname hfree hlookup hshape hne htrim op
    refine ⟨?_, ?_⟩
    · simp only [Counterpart.compileNext_compound_iff hname hlookup hshape hfree,
        Counterpart.compileNext_line_iff hname hne htrim hlookup hshape]
      constructor
      · rintro ⟨-, e, he, ⟨c, hc, haccepts⟩, -⟩
        exact ⟨c, hc, _, e, he, haccepts, rfl⟩
      · rintro ⟨c, hc, -, e, he, haccepts, -⟩
        exact ⟨_, e, he, ⟨c, hc, haccepts⟩, rfl⟩
    · rintro c step step' rfl hstep hstep'
      rw [Counterpart.compileNext_compound_iff hname hlookup hshape hfree] at hstep
      rw [Counterpart.compileNext_line_iff hname hne htrim hlookup hshape] at hstep'
      obtain ⟨e, he, -, rfl⟩ := hstep
      obtain ⟨e', he', haccepts, rfl⟩ := hstep'
      cases he.symm.trans he'
      refine ⟨rfl, rfl, ?_⟩
      intro limit m hm
      exact congrArg some (c.run_eq hm ((lookup_lower scope name).trans hlookup) hshape
        (expression_typed he) haccepts)

/-- A list of texts and two numbers. -/
def tally : List (String × Ty × Value) :=
  [("l", .text ||| .collection, .collection 0), ("x", .number, .number 3),
    ("y", .number, .number 2)]

/-- The state with these variables. -/
def tallied : Machine :=
  ⟨⟨(Heap.empty.newList [.text "a"]).2, []⟩, .ofEntries tally, none, "prog"⟩

theorem tallied_structured : tallied.Structured .standard (.ofEntries tally) := by
  refine Machine.structured_of_supplies (Library.standard_coherent plain_fitting.toCoherent)
    (Space.supplies_ofEntries fun e he => ?_)
  simp only [tally, List.mem_cons, List.not_mem_nil, or_false] at he
  rcases he with rfl | rfl | rfl
  · exact Coherent.suits_newList rfl fun x hx => List.mem_singleton.mp hx ▸ rfl
  · exact plain_fitting.toCoherent.suits_number 3
  · exact plain_fitting.toCoherent.suits_number 2

/-- `x -= @y` stands for `x = @x - @y`, and `l += @l`, where a collection is added to itself, for
`addrange l @l`. -/
theorem compound_longForms_tallied :
    (∃ long, Checked.ofBinary .sub (.var "x" .number) (.var "y" .number) = .ok long ∧
      ((compound 1 "x" .sub (.var "y" .number)).run 0 tallied =
          (assign 1 "x" long).run 0 tallied ∨
        (Ty.number.unmarked = .number ∧
          tallied.RefusesOperand 1 "x" .sub (.var "y" .number) long))) ∧
    ∃ step step', compileNext 0 ⟨.standard, {}, .void, false, false, false⟩ (.ofEntries tally)
        [⟨1, "l += @l"⟩] = .ok step ∧
      compileNext 0 ⟨.standard, {}, .void, false, false, false⟩ (.ofEntries tally)
        [⟨1, "addrange l @l"⟩] = .ok step' ∧
      step.statement.run 0 tallied = step'.statement.run 0 tallied := by
  obtain ⟨hplain, hcollection⟩ := compound_longForms 0
    ⟨.standard, {}, .void, false, false, false⟩ (.ofEntries tally)
  obtain ⟨long, hlong, -, hsame⟩ := hplain [⟨1, "x -= @y"⟩] _ 1 "x" .sub (.var "y" .number) .number
    rfl rfl rfl (Or.inl rfl)
  obtain ⟨-, hrun⟩ := hcollection "l" "@l" 1 [] (.text ||| .collection) (by decide) (by decide) rfl
    rfl (by decide) (by decide) .add
  obtain ⟨step, hstep⟩ : ∃ step, compileNext 0 ⟨.standard, {}, .void, false, false, false⟩
      (.ofEntries tally) [⟨1, "l += @l"⟩] = .ok step := ⟨_, rfl⟩
  obtain ⟨step', hstep'⟩ : ∃ step, compileNext 0 ⟨.standard, {}, .void, false, false, false⟩
      (.ofEntries tally) [⟨1, "addrange l @l"⟩] = .ok step := ⟨_, rfl⟩
  obtain ⟨-, -, hequal⟩ := hrun .addRange step step' rfl hstep hstep'
  exact ⟨⟨long, hlong, hsame 0 tallied (.number 3) rfl rfl⟩, step, step', hstep, hstep',
    hequal 0 tallied tallied_structured⟩

end Statement

/-! ### The messages -/

namespace Definition

/-- A program in which a text comes into a collection of numbers, by way of a second name with a
wider type, and is then added to a number by the last line. -/
def adding (last : String) : Definition where
  name := "adding"
  returns := .void
  parameters := []
  source := "var n as number collection\nvar a as anything collection = @n\nadditem a 'v'\n" ++
    "var x as number = 1\n" ++ last

/-- What is told about the failed run of a program. -/
def failure? (d : Definition) : Option String :=
  match d.compile .standard {} with
  | .error _ => none
  | .ok p =>
    match p.run 0 [] none .empty with
    | none => none
    | some outcome =>
      match outcome.answer with
      | .ok _ => none
      | .error e => some e.message

/-- The two forms do not fail with the same message. -/
theorem adding_messages :
    (adding "x += @n[0]").failure? = some "line 5: operator += cannot be applied to Number" ∧
      (adding "x = @x + @n[0]").failure? = some "line 5: expected a number, got v" := by
  decide +kernel

end Definition

end WorldScript
