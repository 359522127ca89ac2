import WorldScript.Proofs.Compile.Nesting
import WorldScript.Proofs.Expr.Arguments

/-! # Call statements

A line is taken for a call if it is a word and a text in parentheses up to its end, and of no other
form. The whole line is then compiled as an expression, and nothing asks whether this expression is
a call. So `f(1)` becomes a call of `f`, as it should, but `f(1) + f(2)` and `not (true)` are
statements too, since each begins with a word and a parenthesis and ends with one.

* `LineForm.call?_of_read?`, `compileNext_call`: where statements of calls come from.
* `callStatement_single`: which of them are single calls, and of what. -/

namespace WorldScript

/-! ### Lines that are taken for calls -/

/-- The statement is that of a call. -/
def Statement.isCall : Statement → Bool
  | call _ _ => true
  | _ => false

namespace LineForm

/-- What is found, if anything, is not the form of a call. -/
def Avoids (found : Option LineForm) : Prop := found ≠ some .call

namespace Avoids

variable {α : Type}

theorem none : Avoids none := by
  intro heq
  cases heq

theorem some {form : LineForm} (h : form ≠ .call) : Avoids (some form) :=
  fun heq => h (Option.some.inj heq)

theorem bind {x : Option α} {k : α → Option LineForm} (h : ∀ a, Avoids (k a)) :
    Avoids (x >>= k) := by
  intro heq
  obtain ⟨a, -, ha⟩ := Option.bind_eq_some_iff.mp heq
  exact h a ha

theorem map {x : Option α} {make : α → LineForm} (h : ∀ a, make a ≠ .call) :
    Avoids (x.map make) := by
  intro heq
  obtain ⟨a, -, ha⟩ := Option.map_eq_some_iff.mp heq
  exact h a ha

theorem ite {p : Prop} [Decidable p] {form : LineForm} (h : form ≠ .call) :
    Avoids (if p then Option.some form else Option.none) := by
  split
  · exact .some h
  · exact .none

end Avoids

variable (s : List Char)

theorem declare?_avoids : Avoids (declare? s) :=
  .bind fun _ => .bind fun _ => .bind fun _ => .bind fun _ => .bind fun _ => .some (by simp)

theorem forCount?_avoids : Avoids (forCount? s) := by
  refine .bind fun rest => ?_
  split
  · exact .bind fun _ => .some (by simp)
  · exact .none

theorem forEach?_avoids : Avoids (forEach? s) := by
  refine .bind fun rest => ?_
  split
  · exact .bind fun _ => .some (by simp)
  · exact .none

theorem return?_avoids : Avoids (return? s) := by
  refine .bind fun rest => ?_
  split
  · exact .some (by simp)
  · exact .map (by simp)

theorem addItem?_avoids : Avoids (addItem? s) := by
  refine .bind fun _ => .bind fun target => ?_
  dsimp only
  split
  · exact .some (by simp)
  · exact .map (by simp)

theorem setItem?_avoids : Avoids (setItem? s) :=
  .bind fun _ => .bind fun _ => .bind fun _ => .some (by simp)

theorem keywordTarget?_avoids (word : String) {make : List Char → List Char → LineForm}
    (h : ∀ name value, make name value ≠ .call) : Avoids (keywordTarget? word make s) :=
  .bind fun _ => .bind fun _ => .bind fun _ => .some (h _ _)

theorem clearItems?_avoids : Avoids (clearItems? s) := by
  refine .bind fun _ => .bind fun target => ?_
  split
  · exact .some (by simp)
  · exact .none

theorem compound?_avoids : Avoids (compound? s) := by
  refine .bind fun target => ?_
  dsimp only
  split
  · exact .bind fun _ => .bind fun _ => .some (by simp)
  · exact .none

theorem assign?_avoids : Avoids (assign? s) := by
  refine .bind fun target => ?_
  dsimp only
  split
  · split
    · exact .none
    · exact .some (by simp)
  · exact .none

variable {s}

/-- Only the last recogniser finds the form of a call. -/
theorem call?_of_read? (h : read? s = some .call) : call? s = some .call := by
  obtain ⟨q, hq, hform⟩ := List.exists_of_findSome?_eq_some h
  have havoids : ∀ q ∈ recognisers.dropLast, Avoids (q s) := by
    simp only [recognisers, List.dropLast_cons_cons, List.dropLast_singleton, List.forall_mem_cons]
    exact ⟨declare?_avoids s, .map (by simp), forCount?_avoids s, forEach?_avoids s,
      .map (by simp), .map (by simp), .map (by simp), .ite (by simp), .ite (by simp),
      return?_avoids s, addItem?_avoids s, keywordTarget?_avoids s _ (by simp),
      keywordTarget?_avoids s _ (by simp), keywordTarget?_avoids s _ (by simp),
      clearItems?_avoids s, setItem?_avoids s, keywordTarget?_avoids s _ (by simp),
      .ite (by simp), compound?_avoids s, assign?_avoids s, by simp⟩
  have hsplit : recognisers = recognisers.dropLast ++ [call?] := rfl
  rw [hsplit] at hq
  rcases List.mem_append.mp hq with hq | hq
  · exact absurd hform (havoids q hq)
  · rwa [List.mem_singleton.mp hq] at hform

/-- A line that is taken for a call is a word and a text in parentheses up to the end. -/
theorem exists_of_call? (h : call? s = some .call) : ∃ w r inside,
    Text.word? s = some (w, r) ∧ Text.trimLeft r = '(' :: (inside ++ [')']) := by
  obtain ⟨⟨w, r⟩, hw, h⟩ := Option.bind_eq_some_iff.mp h
  obtain ⟨inside, hinside, -⟩ := Option.bind_eq_some_iff.mp h
  refine ⟨w, r, inside, hw, ?_⟩
  simp only [parenthesized?] at hinside
  split at hinside
  · rename_i rest hrest
    rw [hrest]
    simp only [beforeClose?, Option.ite_none_right_eq_some, Option.some.injEq] at hinside
    obtain ⟨hlast, rfl⟩ := hinside
    obtain ⟨start, rfl⟩ := List.getLast?_eq_some_iff.mp hlast
    rw [List.dropLast_concat]
  · cases hinside

/-- Neither a word at the start nor a parenthesis at the end is blank. -/
theorem trim_of_word {w r inside : List Char} (hw : Text.word? s = some (w, r))
    (hr : Text.trimLeft r = '(' :: (inside ++ [')'])) : Text.trim s = s := by
  have hleft : Text.trimLeft s = s := by
    cases s with
    | nil => rfl
    | cons c s =>
      simp only [Text.word?, Option.ite_none_right_eq_some] at hw
      exact Token.trimLeft_of_isNameChar (by simp [Text.isNameChar, hw.1]) s
  have hlast : s.getLast? = some ')' := by
    obtain ⟨blanks, hblanks⟩ := Text.trimLeft_suffix r
    rw [← Text.word?_append hw, ← hblanks, hr, ← List.cons_append, ← List.append_assoc,
      ← List.append_assoc, List.getLast?_concat]
  obtain ⟨start, rfl⟩ := List.getLast?_eq_some_iff.mp hlast
  rw [Text.trim, hleft, Text.trimRight, List.reverse_append, List.reverse_singleton,
    List.singleton_append, List.dropWhile_cons_of_neg (by decide), List.reverse_cons,
    List.reverse_reverse]

end LineForm

section Statements

variable {ctx : Context} {inner : Context → Option Next} {scope : Scope} {line : Line}
  {rest : List Line}

/-- Only a line that is taken for a call becomes one. -/
theorem compileForm_isCall {form : LineForm} (hform : form ≠ .call) :
    Ensures (fun step => step.statement.isCall = false)
      (compileForm ctx inner scope line rest form) := by
  have hleaf : ∀ {s : Compile Statement}, Ensures (fun s => s.isCall = false) s →
      Ensures (fun step => step.statement.isCall = false) (Step.single scope line rest s) := by
    intro s hs step hstep
    obtain ⟨statement, hstatement, hstep⟩ := bind_eq_ok_iff.mp hstep
    obtain rfl := pure_eq_ok_iff.mp hstep
    exact hs statement hstatement
  cases form with
  | declare name type initial =>
    intro step hstep
    obtain ⟨⟨s, t⟩, hs, hstep⟩ := bind_eq_ok_iff.mp hstep
    obtain rfl := pure_eq_ok_iff.mp hstep
    exact Leaf.declare_ensures ctx scope line.number (P := fun s => s.isCall = false)
      (fun _ _ _ => rfl) name type initial (s, t) hs
  | ifChain test => exact .bind fun _ => .bind fun _ => .bind fun _ => .pure rfl
  | forCount name count =>
    exact .bind fun _ => .bind fun _ => .bind fun _ => .bind fun _ => .pure rfl
  | forEach name items =>
    refine .bind fun _ => .bind fun _ => .bind fun _ => ?_
    dsimp only
    split
    · exact .bind fun _ => .bind fun _ => .pure rfl
    · exact .failAt _ _
  | whileLoop test => exact .bind fun _ => .bind fun _ => .bind fun _ => .pure rfl
  | switch value => exact .bind fun _ => .bind fun _ => .bind fun _ => .pure rfl
  | delay duration => exact .bind fun _ => .bind fun _ => .bind fun _ => .pure rfl
  | breakOut => exact hleaf (Leaf.breakOut_ensures ctx _ rfl)
  | continueOn => exact hleaf (Leaf.continueOn_ensures ctx _ rfl)
  | returnWith value =>
    exact hleaf (Leaf.returnWith_ensures ctx scope _ (fun _ => rfl) value)
  | addItem name key item =>
    exact hleaf (Leaf.addItem_ensures ctx scope _ (fun _ _ => rfl) name key item)
  | addRange name items =>
    exact hleaf (.bind fun _ => .bind fun _ => .pure rfl)
  | removeItem name item =>
    exact hleaf (.bind fun _ => .bind fun _ => .bind fun _ => .pure rfl)
  | removeAt name index =>
    exact hleaf (.bind fun _ => .bind fun _ => .pure rfl)
  | clearItems name => exact hleaf (.bind fun _ => .pure rfl)
  | setItem name key item =>
    exact hleaf
      (.bind fun _ => .bind fun _ => .bind fun _ => .bind fun _ => .pure rfl)
  | removeKey name key =>
    exact hleaf (.bind fun _ => .bind fun _ => .pure rfl)
  | separator => exact .failAt _ _
  | compound name op value =>
    exact hleaf (Leaf.compound_ensures ctx scope _ (fun _ _ _ => rfl) name op value)
  | assign name value =>
    exact hleaf (.bind fun _ => .bind fun _ => .pure rfl)
  | call => exact absurd rfl hform

theorem compileLine_call {step : Step} {n : Nat} {e : Checked}
    (h : compileLine ctx inner scope (line :: rest) = .ok step)
    (hstep : step.statement = .call n e) :
    LineForm.read? line.text.toList = some .call ∧
      ctx.expression scope line.number line.text.toList = .ok e ∧
      step = ⟨.call line.number e, rest, scope, line.number⟩ := by
  simp only [compileLine] at h
  split at h
  · exact absurd h failAt_ne_ok
  · rename_i form hread
    by_cases hform : form = .call
    · subst hform
      obtain ⟨statement, hs, h⟩ := bind_eq_ok_iff.mp h
      obtain ⟨e', he, hs⟩ := bind_eq_ok_iff.mp hs
      obtain rfl := pure_eq_ok_iff.mp hs
      obtain rfl := pure_eq_ok_iff.mp h
      cases hstep
      exact ⟨hread, he, rfl⟩
    · have hno : step.statement.isCall = false := compileForm_isCall hform step h
      rw [hstep] at hno
      cases hno

/-- A statement of a call comes from a line of this form that is an expression as a whole. -/
theorem compileNext_call {budget : Nat} {step : Step} {n : Nat} {e : Checked}
    (h : compileNext budget ctx scope (line :: rest) = .ok step)
    (hstep : step.statement = .call n e) :
    LineForm.read? line.text.toList = some .call ∧
      ctx.expression scope line.number line.text.toList = .ok e ∧
      step = ⟨.call line.number e, rest, scope, line.number⟩ := by
  cases budget with
  | zero => exact compileLine_call h hstep
  | succ budget => exact compileLine_call h hstep

/-- A line that is taken for a call, and is an expression as a whole, becomes a statement. -/
theorem compileNext_of_call (budget : Nat) {e : Checked}
    (hread : LineForm.read? line.text.toList = some .call)
    (he : ctx.expression scope line.number line.text.toList = .ok e) :
    compileNext budget ctx scope (line :: rest) =
      .ok ⟨.call line.number e, rest, scope, line.number⟩ := by
  cases budget with
  | zero =>
    simp only [compileNext, compileLine, hread, compileForm, Leaf.call, he]
    rfl
  | succ budget =>
    simp only [compileNext, compileLine, hread, compileForm, Leaf.call, he]
    rfl

theorem expression_of_trim {n : Nat} {text : String} {e : Checked}
    (h : Text.trim text.toList = text.toList) :
    ctx.expression scope n text.toList = .ok e ↔ Checked.ofText ctx.library scope text = .ok e := by
  rw [Context.expression, h, String.ofList_toList]
  cases Checked.ofText ctx.library scope text with
  | ok e' => rw [Except.ok.injEq, Except.ok.injEq]
  | error f => exact ⟨fun h => absurd h failAt_ne_ok, fun h => by cases h⟩

end Statements

/-! ### Expressions that are calls -/

namespace Checked

theorem ofUnary_ne_call {op : UnaryOp} {e : Checked} {f : Function} {es : List Checked} :
    ofUnary op e ≠ .ok (.call f es) := by
  intro h
  cases op <;> simp only [ofUnary] at h <;> split at h <;> cases h

theorem ofBinary_ne_call {op : BinaryOp} {l r : Checked} {f : Function} {es : List Checked} :
    ofBinary op l r ≠ .ok (.call f es) := by
  intro h
  cases op <;> simp only [ofBinary] at h <;> split at h
  case add.isFalse => split at h <;> cases h
  all_goals cases h

theorem ofIndex_ne_call {t k : Checked} {f : Function} {es : List Checked} :
    ofIndex t k ≠ .ok (.call f es) := by
  intro h
  unfold ofIndex at h
  split at h
  · cases h
  · cases h
  · split at h <;> cases h

end Checked

theorem Library.name_of_resolve {lib : Library} {name : String} {types : List Ty} {f : Function}
    (h : lib.resolve name types = .ok f) : f.name = Text.lower name := by
  unfold resolve at h
  split at h
  · cases h
  · split at h
    · rename_i hfind
      cases h
      exact beq_iff_eq.mp (List.mem_filter.mp (List.mem_of_find?_eq_some hfind)).2
    · cases h

namespace Tree

variable {lib : Library} {scope : Scope}

/-- Calls come from calls. -/
theorem check_eq_call {t : Tree} {f : Function} {es : List Checked}
    (h : t.check lib scope = .ok (.call f es)) :
    ∃ name args, t = .call name args ∧ checkAll lib scope args = .ok es ∧
      f.name = Text.lower name := by
  cases t with
  | number n => cases h
  | text s => cases h
  | boolean b => cases h
  | var name =>
    simp only [check] at h
    split at h <;> cases h
  | unary op t =>
    simp only [check, bind_eq_ok_iff] at h
    obtain ⟨_, -, h⟩ := h
    exact absurd h Checked.ofUnary_ne_call
  | binary op l r =>
    simp only [check, bind_eq_ok_iff] at h
    obtain ⟨_, -, _, -, h⟩ := h
    exact absurd h Checked.ofBinary_ne_call
  | index t k =>
    simp only [check, bind_eq_ok_iff] at h
    obtain ⟨_, -, _, -, h⟩ := h
    exact absurd h Checked.ofIndex_ne_call
  | call name args =>
    simp only [check, bind_eq_ok_iff] at h
    obtain ⟨es', hargs, h⟩ := h
    split at h
    · rename_i f' hf
      obtain ⟨rfl, rfl⟩ := Checked.call.inj (pure_eq_ok_iff.mp h)
      exact ⟨name, args, rfl, hargs, Library.name_of_resolve hf⟩
    · cases h

/-- A call stays one. -/
theorem exists_call_of_check {name : String} {args : List Tree} {e : Checked}
    (h : (call name args).check lib scope = .ok e) : ∃ f es, e = .call f es := by
  simp only [check, bind_eq_ok_iff] at h
  obtain ⟨es, -, h⟩ := h
  split at h
  · exact ⟨_, es, (pure_eq_ok_iff.mp h).symm⟩
  · cases h

/-- Texts that list trees list what becomes of them. -/
theorem lists_checked {s : List Char} {ts : List Tree}
    (h : Text.Lists (fun u t => read (String.ofList u) = .ok t) s ts) {es : List Checked}
    (hes : checkAll lib scope ts = .ok es) :
    Text.Lists (fun u e => Checked.ofText lib scope (String.ofList u) = .ok e) s es := by
  induction h generalizing es with
  | none hs =>
    cases hes
    exact .none hs
  | one ht =>
    simp only [checkAll, bind_eq_ok_iff, pure_eq_ok_iff] at hes
    obtain ⟨e, he, rest, hrest, rfl⟩ := hes
    cases hrest
    exact .one (Checked.ofText_eq_ok_iff.mpr ⟨_, ht, he⟩)
  | more ht _ ih =>
    rw [checkAll] at hes
    simp only [bind_eq_ok_iff, pure_eq_ok_iff] at hes
    obtain ⟨e, he, rest, hrest, rfl⟩ := hes
    have hlists := ih hrest
    simp only [checkAll, bind_eq_ok_iff, pure_eq_ok_iff] at hrest
    obtain ⟨e', -, rest', -, rfl⟩ := hrest
    exact .more (Checked.ofText_eq_ok_iff.mpr ⟨_, ht, he⟩) hlists

end Tree

/-- **Call statements.** A line becomes the statement of a call if it is taken for one and is an
expression as a whole. It is then a word and a text in parentheses up to its end. The expression is
a single call exactly if the word is not the operator `not` and the first parenthesis is closed by
the last one. Then the function has the name of the word, and the text in parentheses lists the
arguments. -/
theorem callStatement_single (budget : Nat) (ctx : Context) (scope : Scope) (line : Line)
    (rest : List Line) :
    (∀ step n e, compileNext budget ctx scope (line :: rest) = .ok step ∧
        step.statement = .call n e ↔
      LineForm.read? line.text.toList = some .call ∧
        Checked.ofText ctx.library scope line.text = .ok e ∧ n = line.number ∧
        step = ⟨.call n e, rest, scope, n⟩) ∧
    ∀ step n e, compileNext budget ctx scope (line :: rest) = .ok step →
      step.statement = .call n e →
      ∃ w r inside tokens, Text.word? line.text.toList = some (w, r) ∧
        Text.trimLeft r = '(' :: (inside ++ [')']) ∧
        Token.scan (String.ofList (inside ++ [')'])) = .ok tokens ∧
        ((∃ f es, e = .call f es) ↔
          Text.lower (String.ofList w) ≠ "not" ∧ Token.afterClose tokens 0 = some []) ∧
        ∀ f es, e = .call f es → f.name = Text.lower (String.ofList w) ∧
          Text.Lists (fun u arg => Checked.ofText ctx.library scope (String.ofList u) = .ok arg)
            inside es := by
  have hshape : LineForm.read? line.text.toList = some .call → ∃ w r inside,
      Text.word? line.text.toList = some (w, r) ∧ Text.trimLeft r = '(' :: (inside ++ [')']) ∧
        Text.trim line.text.toList = line.text.toList := by
    intro hread
    obtain ⟨w, r, inside, hw, hr⟩ := LineForm.exists_of_call? (LineForm.call?_of_read? hread)
    exact ⟨w, r, inside, hw, hr, LineForm.trim_of_word hw hr⟩
  refine ⟨fun step n e => ⟨?_, ?_⟩, ?_⟩
  · rintro ⟨h, hstep⟩
    obtain ⟨hread, he, rfl⟩ := compileNext_call h hstep
    obtain ⟨w, r, inside, -, -, htrim⟩ := hshape hread
    cases hstep
    exact ⟨hread, (expression_of_trim htrim).mp he, rfl, rfl⟩
  · rintro ⟨hread, he, rfl, rfl⟩
    obtain ⟨w, r, inside, -, -, htrim⟩ := hshape hread
    exact ⟨compileNext_of_call budget hread ((expression_of_trim htrim).mpr he), rfl⟩
  · intro step n e h hstep
    obtain ⟨hread, he, -⟩ := compileNext_call h hstep
    obtain ⟨w, r, inside, hw, hr, htrim⟩ := hshape hread
    obtain ⟨t, ht, hcheck⟩ := Checked.ofText_eq_ok_iff.mp ((expression_of_trim htrim).mp he)
    obtain ⟨tokens, hscan, hsingle, hargs⟩ := Tree.read_word ht hw hr
    refine ⟨w, r, inside, tokens, hw, hr, hscan, ?_, ?_⟩
    · rw [← hsingle]
      constructor
      · rintro ⟨f, es, rfl⟩
        obtain ⟨name, args, rfl, -⟩ := Tree.check_eq_call hcheck
        exact ⟨name, args, rfl⟩
      · rintro ⟨name, args, rfl⟩
        exact Tree.exists_call_of_check hcheck
    · rintro f es rfl
      obtain ⟨name, args, rfl, hes, hname⟩ := Tree.check_eq_call hcheck
      obtain ⟨rfl, hlists⟩ := hargs name args rfl
      exact ⟨hname, Tree.lists_checked hlists hes⟩

/-- Two texts joined, each the answer of a call, are a statement that is no call. -/
theorem callStatement_single_sum :
    ∃ e, compileNext 0 ⟨.standard, {}, .void, false, false, false⟩ .empty
        [⟨1, "upper('a') + upper('b')"⟩] = .ok ⟨.call 1 e, [], .empty, 1⟩ ∧
      ∀ f es, e ≠ .call f es := by
  obtain ⟨hiff, hshape⟩ := callStatement_single 0 ⟨.standard, {}, .void, false, false, false⟩ .empty
    ⟨1, "upper('a') + upper('b')"⟩ []
  have hread : LineForm.read? "upper('a') + upper('b')".toList = some .call := by decide +kernel
  obtain ⟨e, he⟩ : ∃ e, Checked.ofText .standard .empty "upper('a') + upper('b')" = .ok e :=
    ⟨_, rfl⟩
  obtain ⟨hstep, -⟩ := (hiff _ 1 e).mpr ⟨hread, he, rfl, rfl⟩
  refine ⟨e, hstep, fun f es hcall => ?_⟩
  obtain ⟨w, r, inside, tokens, hw, hr, hscan, hsingle, -⟩ := hshape _ 1 e hstep rfl
  have hword : Text.word? "upper('a') + upper('b')".toList =
      some ("upper".toList, "('a') + upper('b')".toList) := by decide +kernel
  obtain ⟨-, rfl⟩ := Prod.mk.inj (Option.some.inj (hword.symm.trans hw))
  have hinside : inside ++ [')'] = "'a') + upper('b')".toList := (List.cons.inj hr).2.symm
  have htokens : tokens = [.text "a", .closeParen, .plus, .word "upper", .openParen, .text "b",
      .closeParen] := by
    rw [hinside] at hscan
    exact Except.ok.inj (hscan.symm.trans rfl)
  -- the first parenthesis is closed before the sign
  have hclose := (hsingle.mp ⟨f, es, hcall⟩).2
  rw [htokens] at hclose
  cases hclose

end WorldScript
