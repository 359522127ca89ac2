import WorldScript.Expr.Typing

/-! # Typed expressions

What the checker has established about every part of an expression, read off the expression alone:
its variables are visible with the types it gives them, and the types of the operands are those that
the operator, the index or the function takes.

* `check_typed`: whatever comes out of the checker is typed. -/

namespace WorldScript

/-! ### Peeling computations apart -/

theorem bind_eq_ok_iff {ε α β : Type} {x : Except ε α} {f : α → Except ε β} {b : β} :
    (x >>= f) = .ok b ↔ ∃ a, x = .ok a ∧ f a = .ok b := by
  cases x with
  | error e => simp [bind, Except.bind]
  | ok a => simp [bind, Except.bind]

theorem bind_eq_error_iff {ε α β : Type} {x : Except ε α} {f : α → Except ε β} {e : ε} :
    (x >>= f) = .error e ↔ x = .error e ∨ ∃ a, x = .ok a ∧ f a = .error e := by
  cases x with
  | error e => simp [bind, Except.bind]
  | ok a => simp [bind, Except.bind]

theorem exists_eq_ok_of_isOk {ε α : Type} {x : Except ε α} (h : x.isOk = true) :
    ∃ a, x = .ok a := by
  cases x with
  | error e => cases h
  | ok a => exact ⟨a, rfl⟩

@[simp] theorem pure_eq_ok_iff {ε α : Type} {a b : α} :
    (pure a : Except ε α) = .ok b ↔ a = b := by
  simp [pure, Except.pure]

/-! ### The types of operands -/

namespace Comparison

/-- The types of the operands that a comparison takes. -/
def Takes (op : Comparison) (l r : Ty) : Prop :=
  match op with
  | equal => l.accepts r = true ∨ r.accepts l = true
  | unequal => l.accepts r = true ∨ r.accepts l = true
  | _ => (l = .number ∧ r = .number) ∨ (l = .text ∧ r = .text)

end Comparison

namespace Checked

variable (lib : Library) (scope : Scope)

mutual

/-- All parts of the expression have the types they need. -/
def Typed : Checked → Prop
  | literal _ => True
  | var name type => scope.lookup name = some type
  | negate e => e.Typed ∧ e.plainType = .number
  | not e => e.Typed ∧ e.plainType = .boolean
  | arithmetic _ l r => l.Typed ∧ r.Typed ∧ l.plainType = .number ∧ r.plainType = .number
  | concat l r => l.Typed ∧ r.Typed ∧
      ((l.plainType = .text ∧ r.plainType.isPlain = true) ∨
        (r.plainType = .text ∧ l.plainType.isPlain = true))
  | compare op l r => l.Typed ∧ r.Typed ∧ op.Takes l.plainType r.plainType
  | and l r => l.Typed ∧ r.Typed ∧ l.plainType = .boolean ∧ r.plainType = .boolean
  | or l r => l.Typed ∧ r.Typed ∧ l.plainType = .boolean ∧ r.plainType = .boolean
  | index t k type => t.Typed ∧ k.Typed ∧
      ∃ key, t.plainType.indexing? = some (key, .ok type) ∧ key.accepts k.plainType = true
  | call f args => AllTyped args ∧ f ∈ lib.functions ∧ f.accepts (args.map (·.type)) = true

/-- All of the expressions are typed. -/
def AllTyped : List Checked → Prop
  | [] => True
  | e :: es => e.Typed ∧ AllTyped es

end

variable {lib scope}

/-! ### What the checker produces -/

theorem ofUnary_typed {op : UnaryOp} {e e' : Checked} (he : e.Typed lib scope)
    (h : ofUnary op e = .ok e') : e'.Typed lib scope := by
  unfold ofUnary at h
  cases op with
  | negate =>
    simp only at h
    split at h
    · rename_i ht
      cases h
      exact ⟨he, ht⟩
    · cases h
  | not =>
    simp only at h
    split at h
    · rename_i ht
      cases h
      exact ⟨he, ht⟩
    · cases h

theorem ofBinary_typed {op : BinaryOp} {l r e : Checked} (hl : l.Typed lib scope)
    (hr : r.Typed lib scope) (h : ofBinary op l r = .ok e) : e.Typed lib scope := by
  -- every operator but `+` is accepted by one test, whose failure is the only other outcome
  cases op <;> simp only [ofBinary] at h <;> split at h
  case add.isTrue ht =>
    cases h
    simp only [Bool.and_eq_true, decide_eq_true_eq] at ht
    exact ⟨hl, hr, ht.1, ht.2⟩
  case add.isFalse =>
    split at h
    · rename_i ht
      cases h
      simp only [Bool.or_eq_true, Bool.and_eq_true, decide_eq_true_eq] at ht
      exact ⟨hl, hr, ht⟩
    · cases h
  all_goals first
    | (cases h; done)
    | (rename_i ht
       cases h
       simp only [Bool.or_eq_true, Bool.and_eq_true, decide_eq_true_eq] at ht
       exact ⟨hl, hr, ht⟩)

theorem ofIndex_typed {t k e : Checked} (ht : t.Typed lib scope) (hk : k.Typed lib scope)
    (h : ofIndex t k = .ok e) : e.Typed lib scope := by
  unfold ofIndex at h
  split at h
  · cases h
  · cases h
  · rename_i key type hindex
    split at h
    · rename_i hkey
      cases h
      exact ⟨ht, hk, key, hindex, hkey⟩
    · cases h

end Checked

theorem Library.resolve_eq_ok {lib : Library} {name : String} {types : List Ty} {f : Function}
    (h : lib.resolve name types = .ok f) : f ∈ lib.functions ∧ f.accepts types = true := by
  unfold resolve at h
  split at h
  · cases h
  · split at h
    · rename_i hfind
      cases h
      have haccepts := List.find?_some hfind
      exact ⟨(List.mem_filter.mp (List.mem_of_find?_eq_some hfind)).1, haccepts⟩
    · cases h

namespace Tree

variable {lib : Library} {scope : Scope}

mutual

theorem check_typed : ∀ {t : Tree} {e : Checked}, t.check lib scope = .ok e → e.Typed lib scope
  | number n, e, h => by
    simp only [check, Except.ok.injEq] at h
    subst h
    trivial
  | text s, e, h => by
    simp only [check, Except.ok.injEq] at h
    subst h
    trivial
  | boolean b, e, h => by
    simp only [check, Except.ok.injEq] at h
    subst h
    trivial
  | var name, e, h => by
    simp only [check] at h
    split at h
    · rename_i type hlookup
      cases h
      simpa only [Checked.Typed, Scope.lookup, Text.lower_lower] using hlookup
    · cases h
  | unary op t, e, h => by
    simp only [check, bind_eq_ok_iff] at h
    obtain ⟨inner, hinner, h⟩ := h
    exact Checked.ofUnary_typed (check_typed hinner) h
  | binary op l r, e, h => by
    simp only [check, bind_eq_ok_iff] at h
    obtain ⟨left, hleft, right, hright, h⟩ := h
    exact Checked.ofBinary_typed (check_typed hleft) (check_typed hright) h
  | index t k, e, h => by
    simp only [check, bind_eq_ok_iff] at h
    obtain ⟨target, htarget, key, hkey, h⟩ := h
    exact Checked.ofIndex_typed (check_typed htarget) (check_typed hkey) h
  | call name args, e, h => by
    simp only [check, bind_eq_ok_iff] at h
    obtain ⟨args', hargs, h⟩ := h
    split at h
    · rename_i f hf
      rw [pure_eq_ok_iff] at h
      subst h
      exact ⟨checkAll_typed hargs, Library.resolve_eq_ok hf⟩
    · cases h

theorem checkAll_typed : ∀ {ts : List Tree} {es : List Checked},
    checkAll lib scope ts = .ok es → Checked.AllTyped lib scope es
  | [], es, h => by
    simp only [checkAll, Except.ok.injEq] at h
    subst h
    trivial
  | t :: ts, es, h => by
    simp only [checkAll, bind_eq_ok_iff, pure_eq_ok_iff] at h
    obtain ⟨e, he, es', hes, rfl⟩ := h
    exact ⟨check_typed he, checkAll_typed hes⟩

end

end Tree

theorem Checked.ofText_eq_ok_iff {lib : Library} {scope : Scope} {s : String} {e : Checked} :
    Checked.ofText lib scope s = .ok e ↔ ∃ t, Tree.read s = .ok t ∧ t.check lib scope = .ok e := by
  unfold Checked.ofText
  cases Tree.read s with
  | error f => simp
  | ok t =>
    simp only [Except.ok.injEq, exists_eq_left']
    cases t.check lib scope with
    | error f => constructor <;> intro h <;> cases h
    | ok e' => constructor <;> intro h <;> cases h <;> rfl

theorem Checked.ofText_typed {lib : Library} {scope : Scope} {s : String} {e : Checked}
    (h : Checked.ofText lib scope s = .ok e) : e.Typed lib scope := by
  obtain ⟨t, -, hcheck⟩ := Checked.ofText_eq_ok_iff.mp h
  exact Tree.check_typed hcheck

end WorldScript
