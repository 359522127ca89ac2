import WorldScript.Proofs.Compile.Correspondence
import WorldScript.Proofs.Expr.Spelling
import WorldScript.Proofs.Program.Layout
import WorldScript.Proofs.Statement.Spelling

/-! # Other spellings of a source

The language does not distinguish capital letters from small ones, except in text literals. Lines
that are spelled in two ways have the same form, their expressions are resolved to the same, and
names are compared without regard to their case. So two spellings of a source compile to the same
program, or they are refused on the same line; what is told about it may quote the one or the other
spelling.

* `Source.folded`: the lines of a source with their letters outside of literals in lower case.
* `Correspondence.spelling`: lines that are spellings of each other, and errors on the same line.
* `Definition.compile_spelling`: two spellings of a source. -/

namespace WorldScript

open Text (Alike Closed)
open Text.Quoting (outside)
open LineForm (SpelledIf)

/-! ### Names and types -/

theorem Text.lower_of_alike {s t : List Char} (h : Alike s t) :
    lower (String.ofList s) = lower (String.ofList t) := by
  rw [lower, lower, String.toList_ofList, String.toList_ofList, h]

theorem Text.words_map_toLower (s : List Char) :
    words (s.map Char.toLower) = (words s).map (List.map Char.toLower) := by
  have hfold : (s.map Char.toLower).foldr wordStep ([], []) =
      Prod.map (List.map Char.toLower) (List.map (List.map Char.toLower))
        (s.foldr wordStep ([], [])) := by
    induction s with
    | nil => rfl
    | cons c s ih =>
      rw [List.map_cons, List.foldr_cons, List.foldr_cons, ih, wordStep, wordStep, isBlank_toLower]
      split
      · simp only [Prod.map, List.isEmpty_map]
        split <;> rfl
      · rfl
  simp only [words, hfold, Prod.map, List.isEmpty_map]
  split <;> rfl

theorem Name.isValid_lower (name : String) : isValid (Text.lower name) = isValid name := by
  have hrest : (fun d : Char => d.isAlphanum || d == '_') ∘ Char.toLower =
      fun d => d.isAlphanum || d == '_' := funext Token.isWordChar_toLower
  unfold isValid
  rw [Text.lower, String.toList_ofList]
  cases name.toList with
  | nil => rfl
  | cons c cs => simp only [List.map_cons, List.all_map, Token.isAlpha_toLower, hrest]

theorem Name.closed_of_isValid {name : List Char} (h : isValid (String.ofList name) = true) :
    Closed name := by
  have hchars := (chars_of_isValid h).2
  rw [String.toList_ofList] at hchars
  exact .of_forall rfl rfl hchars

theorem Ty.read_of_alike {s t : List Char} (h : Alike s t) :
    read (String.ofList s) = read (String.ofList t) := by
  have hwords : ∀ s : List Char, (Text.words s).map (fun w => Text.lower (String.ofList w)) =
      (Text.words (s.map Char.toLower)).map String.ofList := by
    intro s
    rw [Text.words_map_toLower, List.map_map]
    refine List.map_congr_left fun w _ => ?_
    rw [Text.lower, String.toList_ofList, Function.comp_apply]
  rw [read, read, String.toList_ofList, String.toList_ofList, hwords, hwords, h]

/-- No name of a type has a quote in it. -/
theorem Ty.closed_of_read {s : List Char} {type : Ty} (h : read (String.ofList s) = .ok type) :
    Closed s := by
  obtain ⟨-, hwords⟩ := mem_of_ofWords h
  rw [String.toList_ofList] at hwords
  have hquotes : ∀ word ∈ (baseWords ++ shapeWords).map Prod.fst,
      word.toList.all (!Text.isQuote ·) = true := by decide
  refine .of_forall (f := (!Text.isQuote ·)) rfl rfl fun c hc => ?_
  cases hblank : Text.isBlank c with
  | true => rw [Text.isQuote_eq_false (f := Text.isBlank) rfl rfl hblank, Bool.not_false]
  | false =>
    obtain ⟨w, hw, hin⟩ := Text.mem_words hc hblank
    have hlower : c.toLower ∈ (Text.lower (String.ofList w)).toList := by
      rw [Text.lower, String.toList_ofList, String.toList_ofList]
      exact List.mem_map_of_mem hin
    rw [← Text.isQuote_toLower]
    exact List.all_eq_true.mp (hquotes _ (hwords _ (List.mem_map_of_mem hw))) _ hlower

theorem Text.closed_of_trim {s : List Char} (h : Closed (trim s)) : Closed s := by
  have hblanks : ∀ {u : List Char}, (∀ c ∈ u, isBlank c = true) → Closed u := fun hu =>
    .of_forall rfl rfl hu
  obtain ⟨lead, trail, hs, hlead, htrail⟩ := eq_append_trim s
  rw [hs, Closed, Quoting.after_append, hblanks hlead, Quoting.after_append, h, hblanks htrail]

namespace Correspondence

/-- Lines that are spellings of each other. Errors may quote them, but on the same line. -/
def spelling : Correspondence where
  context := Eq
  line a a' := a.number = a'.number ∧ SpelledIf True a.text.toList a'.text.toList
  extra := []
  error e e' := e.line = e'.line
  excused _ := False

namespace Spelling

/-! ### Pieces of lines -/

theorem bind {α β β' : Type} {W : β → β' → Prop} {x x' : Compile α} {k : α → Compile β}
    {k' : α → Compile β'} (h : spelling.Agree Eq x x')
    (hk : ∀ a, x = .ok a → spelling.Agree W (k a) (k' a)) :
    spelling.Agree W (x >>= k) (x' >>= k') := by
  refine h.bind fun a a' ha _ haa' => ?_
  subst haa'
  exact hk a ha

theorem same {α : Type} (x : Compile α) : spelling.Agree Eq x x :=
  .refl (fun _ => rfl) (fun _ => rfl) x

variable {ctx : Context} {scope : Scope} {n : Nat}

section Names

variable {name name' : String} (h : Text.lower name = Text.lower name')

include h

theorem lookup_eq : scope.lookup name = scope.lookup name' := by
  rw [← lookup_lower, h, lookup_lower]

theorem add_eq (type : Ty) : scope.add name type = scope.add name' type := by
  rw [Scope.add, Scope.add, h]

theorem checkNewName_agree :
    spelling.Agree Eq (checkNewName scope n name) (checkNewName scope n name') := by
  have hvalid : Name.isValid name = Name.isValid name' := by
    rw [← Name.isValid_lower, h, Name.isValid_lower]
  have hreserved : Name.isReserved name = Name.isReserved name' := by
    rw [← isReserved_lower, h, isReserved_lower]
  unfold checkNewName Scope.declares
  rw [hvalid, hreserved, lookup_eq h]
  split
  · exact .error rfl
  · split
    · exact .error rfl
    · split
      · exact .error rfl
      · exact .ok rfl

theorem lookupAt_agree : spelling.Agree Eq (lookupAt scope n name) (lookupAt scope n name') := by
  unfold lookupAt
  rw [lookup_eq h]
  split
  · exact .ok rfl
  · exact .error rfl

theorem target_agree (shapes : List Ty) (wanted : String) :
    spelling.Agree Eq (Leaf.target scope n shapes wanted name)
      (Leaf.target scope n shapes wanted name') := by
  refine bind (lookupAt_agree h) fun type _ => ?_
  dsimp only
  split
  · exact .ok rfl
  · exact .error rfl

end Names

theorem isValid_of_checkNewName {name : String} {u : Unit}
    (h : checkNewName scope n name = .ok u) : Name.isValid name = true := by
  unfold checkNewName at h
  split at h
  · exact absurd h failAt_ne_ok
  · rename_i hvalid
    simpa using hvalid

section Expressions

variable {s t : List Char} (h : SpelledIf True s t)

include h

theorem expression_agree :
    spelling.Agree Eq (ctx.expression scope n s) (ctx.expression scope n t) := by
  have hresolved := Checked.ofText_respelled ctx.library scope h.trim
  unfold Context.expression
  generalize Checked.ofText ctx.library scope (String.ofList (Text.trim s)) = x at hresolved ⊢
  generalize Checked.ofText ctx.library scope (String.ofList (Text.trim t)) = y at hresolved ⊢
  cases hresolved with
  | ok e => exact .ok rfl
  | error e e' => exact .error rfl

theorem typed_agree (role role' : Role) (expected : Ty) :
    spelling.Agree Eq (ctx.typed scope n role expected s) (ctx.typed scope n role' expected t) := by
  refine bind (expression_agree h) fun e _ => ?_
  split
  · exact .ok rfl
  · exact .error rfl

theorem caseValue_agree (switchType : Ty) :
    spelling.Agree Eq (Cases.caseValue ctx scope n switchType s)
      (Cases.caseValue ctx scope n switchType t) := by
  refine bind (expression_agree h) fun e _ => ?_
  split
  · exact .ok rfl
  · exact .error rfl

end Expressions

/-- An expression that can be read ends outside of literals. -/
theorem closed_of_typed {role : Role} {expected : Ty} {s : List Char} {e : Checked}
    (h : ctx.typed scope n role expected s = .ok e) : Closed s := by
  simp only [Context.typed, bind_eq_ok_iff] at h
  obtain ⟨e', he', -⟩ := h
  unfold Context.expression at he'
  split at he'
  · rename_i hread
    have hclosed := Checked.closed_of_ofText hread
    rw [String.toList_ofList] at hclosed
    exact Text.closed_of_trim hclosed
  · exact absurd he' failAt_ne_ok

/-! ### Statements of one line -/

theorem declaredName_alike {name name' : List Char} (h : Alike name name') :
    Text.lower (Leaf.declaredName name) = Text.lower (Leaf.declaredName name') :=
  Text.lower_of_alike (h.dropWhile (Text.apply_toLower (by decide)))

/-- The `@`s in front of a declared name are no quotes either. -/
theorem closed_of_declaredName {name : List Char}
    (h : Name.isValid (Leaf.declaredName name) = true) : Closed name := by
  have hclosed := Name.closed_of_isValid h
  rwa [Closed, Token.after_dropWhile rfl rfl] at hclosed

theorem declare_agree {name name' type type' : List Char} {initial initial' : Option (List Char)}
    (hname : Alike name name') (htype : Alike type type')
    (hinitial : Option.Rel (SpelledIf (Closed name ∧ Closed type)) initial initial') :
    spelling.Agree Eq (Leaf.declare ctx scope n name type initial)
      (Leaf.declare ctx scope n name' type' initial') := by
  have hlower := declaredName_alike hname
  simp only [Leaf.declare, Ty.read_of_alike htype, hlower]
  refine bind (checkNewName_agree hlower) fun _ hnew => ?_
  have hclosed := closed_of_declaredName (isValid_of_checkNewName hnew)
  cases hread : Ty.read (String.ofList type') with
  | error e => exact .error rfl
  | ok read =>
    rw [← Ty.read_of_alike htype] at hread
    dsimp only
    split
    · exact .error rfl
    · cases hinitial with
      | none => exact .ok rfl
      | some h =>
        have hvalue := h.imp fun _ : True => ⟨hclosed, Ty.closed_of_read hread⟩
        exact bind (typed_agree hvalue _ _ read) fun e _ => .ok rfl

theorem returnWith_agree {value value' : Option (List Char)}
    (h : Option.Rel (SpelledIf True) value value') :
    spelling.Agree Eq (Leaf.returnWith ctx scope n value) (Leaf.returnWith ctx scope n value') := by
  cases h with
  | none => exact same _
  | some h =>
    simp only [Leaf.returnWith]
    split
    · exact .error rfl
    · split
      · exact .error rfl
      · exact bind (typed_agree h _ _ _) fun e _ => .ok rfl

theorem assign_agree {name name' value value' : List Char} (hname : Alike name name')
    (hvalue : SpelledIf True value value') :
    spelling.Agree Eq (Leaf.assign ctx scope n name value)
      (Leaf.assign ctx scope n name' value') := by
  have hlower := Text.lower_of_alike hname
  refine bind (lookupAt_agree hlower) fun type _ => ?_
  refine bind (typed_agree hvalue _ _ type) fun e _ => ?_
  exact .ok (by rw [hlower])

theorem compound_agree {name name' value value' : List Char} (op : CompoundOp)
    (hname : Alike name name') (hvalue : SpelledIf True value value') :
    spelling.Agree Eq (Leaf.compound ctx scope n name op value)
      (Leaf.compound ctx scope n name' op value') := by
  have hlower := Text.lower_of_alike hname
  refine bind (lookupAt_agree hlower) fun type _ => ?_
  refine bind (expression_agree hvalue) fun e _ => ?_
  dsimp only
  rw [hlower]
  -- whether the variable has elements or not, the operand is checked in the same way
  split
  all_goals
    refine bind (same _) fun element _ => ?_
    split
    · exact .error rfl
    · exact .error rfl
    · exact .ok rfl

/-- The last step of a change of a structural variable. -/
theorem change_agree {name name' s t : List Char} (hname : Alike name name')
    (h : SpelledIf True s t) (role : Role) (expected : Ty) (make : Checked → Change) :
    spelling.Agree Eq
      (do
        let e ← ctx.typed scope n role expected s
        return Statement.change n (Text.lower (String.ofList name)) (make e))
      (do
        let e ← ctx.typed scope n role expected t
        return Statement.change n (Text.lower (String.ofList name')) (make e)) := by
  rw [Text.lower_of_alike hname]
  exact bind (typed_agree h role role expected) fun e _ => .ok rfl

/-- The last steps of a change at a key. It is read before the item, so its literals are closed. -/
theorem keyedChange_agree {name name' key key' item item' : List Char} (hname : Alike name name')
    (hkey : SpelledIf True key key') (hitem : SpelledIf (Closed key) item item') (keyType : Ty)
    (element : Compile Ty) (make : Checked → Checked → Change) :
    spelling.Agree Eq
      (do
        let k ← ctx.typed scope n .key keyType key
        let e ← ctx.typed scope n .item (← element) item
        return Statement.change n (Text.lower (String.ofList name)) (make k e))
      (do
        let k ← ctx.typed scope n .key keyType key'
        let e ← ctx.typed scope n .item (← element) item'
        return Statement.change n (Text.lower (String.ofList name')) (make k e)) := by
  refine bind (typed_agree hkey _ _ _) fun k hk => ?_
  refine bind (same element) fun type _ => ?_
  exact change_agree hname (hitem.imp fun _ => closed_of_typed hk) _ _ (make k)

/-! ### Heads and dividers -/

theorem leaf_agree {x x' : Compile Statement} (h : spelling.Agree Eq x x') :
    spelling.Agree spelling.Heads (Head.ofLeaf scope x) (Head.ofLeaf scope x') :=
  bind h fun s _ => .ok (.leaf s scope)

/-- The heads of two spellings of a line, form by form. -/
theorem ofForm_agree (room : Bool) {line line' : Line} (hline : spelling.line line line')
    {form form' : LineForm} (hform : form.Respelled form') :
    spelling.Agree spelling.Heads (Head.ofForm ctx room scope line form)
      (Head.ofForm ctx room scope line' form') := by
  obtain ⟨n, text⟩ := line
  obtain ⟨n', text'⟩ := line'
  obtain ⟨rfl, htext⟩ : n = n' ∧ SpelledIf True text.toList text'.toList := hline
  cases hform with
  | declare hname htype hinitial =>
    refine bind (declare_agree hname htype hinitial) fun found _ => ?_
    obtain ⟨s, type⟩ := found
    dsimp only
    rw [add_eq (declaredName_alike hname)]
    exact .ok (.leaf s _)
  | ifChain htest =>
    refine bind (same _) fun _ _ => ?_
    exact bind (typed_agree htest _ _ _) fun test _ => .ok (.arms test)
  | forCount hname hcount =>
    have hlower := Text.lower_of_alike hname
    refine bind (checkNewName_agree hlower) fun _ hnew => ?_
    have hclosed := Name.closed_of_isValid (isValid_of_checkNewName hnew)
    refine bind (same _) fun _ _ => ?_
    refine bind (typed_agree (hcount.imp fun _ => hclosed) _ _ _) fun count _ => ?_
    rw [hlower, add_eq hlower]
    exact .ok (.block _ _ _ rfl)
  | forEach hname hitems =>
    have hlower := Text.lower_of_alike hname
    refine bind (checkNewName_agree hlower) fun _ hnew => ?_
    have hclosed := Name.closed_of_isValid (isValid_of_checkNewName hnew)
    refine bind (same _) fun _ _ => ?_
    refine bind (expression_agree (hitems.imp fun _ => hclosed)) fun collection _ => ?_
    dsimp only
    split
    · refine bind (same _) fun element _ => ?_
      rw [hlower, add_eq hlower]
      exact .ok (.block _ _ _ rfl)
    · exact .error rfl
  | whileLoop htest =>
    refine bind (same _) fun _ _ => ?_
    exact bind (typed_agree htest _ _ _) fun test _ => .ok (.block _ _ _ rfl)
  | switch hvalue =>
    refine bind (same _) fun _ _ => ?_
    exact bind (expression_agree hvalue) fun value _ => .ok (.sections value)
  | delay hduration =>
    refine bind (same _) fun _ _ => ?_
    exact bind (typed_agree hduration _ _ _) fun duration _ => .ok (.block _ _ _ rfl)
  | separator => exact .error rfl
  | breakOut => exact leaf_agree (same _)
  | continueOn => exact leaf_agree (same _)
  | returnWith hvalue => exact leaf_agree (returnWith_agree hvalue)
  | addItem hname hitem =>
    refine leaf_agree (bind (target_agree (Text.lower_of_alike hname) _ _) fun type _ => ?_)
    exact bind (same _) fun element _ => change_agree hname hitem _ _ .add
  | addKeyed hname hkey hitem =>
    refine leaf_agree (bind (target_agree (Text.lower_of_alike hname) _ _) fun type _ => ?_)
    exact keyedChange_agree hname hkey hitem _ _ .addKeyed
  | addRange hname hitems =>
    refine leaf_agree (bind (target_agree (Text.lower_of_alike hname) _ _) fun type _ => ?_)
    exact change_agree hname hitems _ _ .addRange
  | removeItem hname hitem =>
    refine leaf_agree (bind (target_agree (Text.lower_of_alike hname) _ _) fun type _ => ?_)
    exact bind (same _) fun element _ => change_agree hname hitem _ _ .remove
  | removeAt hname hindex =>
    refine leaf_agree (bind (target_agree (Text.lower_of_alike hname) _ _) fun type _ => ?_)
    exact change_agree hname hindex _ _ .removeAt
  | clearItems hname =>
    have hlower := Text.lower_of_alike hname
    refine leaf_agree (bind (target_agree hlower _ _) fun type _ => ?_)
    exact .ok (by rw [hlower])
  | setItem hname hkey hitem =>
    refine leaf_agree (bind (target_agree (Text.lower_of_alike hname) _ _) fun type _ => ?_)
    exact keyedChange_agree hname hkey hitem _ _ .set
  | removeKey hname hkey =>
    refine leaf_agree (bind (target_agree (Text.lower_of_alike hname) _ _) fun type _ => ?_)
    exact change_agree hname hkey _ _ .removeKey
  | compound op hname hvalue => exact leaf_agree (compound_agree op hname hvalue)
  | assign hname hvalue => exact leaf_agree (assign_agree hname hvalue)
  | call => exact leaf_agree (bind (expression_agree htext) fun e _ => .ok rfl)

theorem ofLine_agree (room : Bool) {line line' : Line} (hline : spelling.line line line') :
    spelling.Agree spelling.Heads (Head.ofLine ctx room scope line)
      (Head.ofLine ctx room scope line') := by
  unfold Head.ofLine
  rcases rel_eq_or (LineForm.respelled_read? hline.2) with ⟨hs, ht⟩ | ⟨form, form', hs, ht, hform⟩
  · rw [hs, ht]
    exact .error hline.1
  · rw [hs, ht]
    exact ofForm_agree room hline hform

theorem ofArm_agree {line line' : Line} (hline : spelling.line line line') :
    spelling.Agree Eq (Divider.ofArm ctx scope line) (Divider.ofArm ctx scope line') := by
  unfold Divider.ofArm
  rw [LineForm.isEnd_respelled _ hline.2, hline.1]
  split
  · exact .ok rfl
  · rcases rel_eq_or (LineForm.respelled_elseIf? hline.2) with ⟨hs, ht⟩ | ⟨test, test', hs, ht, h⟩
    · rw [hs, ht]
      exact .ok rfl
    · rw [hs, ht]
      exact bind (typed_agree h _ _ _) fun e _ => .ok rfl

theorem ofSection_agree (switchType : Ty) {line line' : Line} (hline : spelling.line line line') :
    spelling.Agree Eq (Divider.ofSection ctx scope switchType line)
      (Divider.ofSection ctx scope switchType line') := by
  unfold Divider.ofSection
  rw [LineForm.isEnd_respelled _ hline.2, hline.2.isKeyword, hline.1]
  split
  · exact .ok rfl
  · rcases rel_eq_or (LineForm.respelled_case? hline.2) with ⟨hs, ht⟩ | ⟨value, value', hs, ht, h⟩
    · rw [hs, ht]
      dsimp only
      split
      · exact .ok rfl
      · exact .error rfl
    · rw [hs, ht]
      exact bind (caseValue_agree h switchType) fun e _ => .ok rfl

end Spelling

theorem spelling_fair : spelling.Fair where
  switching h := congrArg Context.switching h
  number h := h.1
  isEnd h word := (LineForm.isEnd_respelled word h.2).symm
  isArmEnd h := (LineForm.isArmEnd_respelled h.2).symm
  isSectionEnd h := (LineForm.isSectionEnd_respelled h.2).symm
  head hctx h room scope := by
    subst hctx
    exact Spelling.ofLine_agree room h
  arm hctx h scope := by
    subst hctx
    exact Spelling.ofArm_agree h
  part hctx h scope type := by
    subst hctx
    exact Spelling.ofSection_agree type h
  same _ := rfl
  afterElse _ _ := rfl
  unterminated := Or.inl rfl

end Correspondence

/-! ### Sources -/

namespace Source

/-- The lines of a source, with the letters outside of text literals in lower case. -/
def folded (source : String) : List (List Char) :=
  (Text.splitLines source.toList).map outside.fold

/-- Where the lines end is of no importance for those that are significant. -/
theorem lines_eq_significant (source : String) :
    lines source = significant 1 (Text.splitLines source.toList) := by
  obtain ⟨ended, last, hsplit⟩ := Text.exists_splitLines source.toList
  have hlast : ∀ n, significant n (if last.isEmpty then [] else [last]) = significant n [last] := by
    intro n
    cases last with
    | nil => rfl
    | cons c last => rfl
  have hended : ∀ n,
      significant n (ended.map Text.dropReturn ++ if last.isEmpty then [] else [last]) =
        significant n (ended ++ [last]) := by
    clear hsplit
    induction ended with
    | nil => exact hlast
    | cons raw ended ih =>
      intro n
      have htrim := Text.trim_dropReturn raw
      simp only [List.map_cons, List.cons_append, significant, isIgnorable_congr htrim, htrim, ih]
  rw [lines, Text.lines_eq hsplit, hsplit, hended]

theorem isIgnorable_respelled {s t : List Char} (h : SpelledIf True s t) :
    isIgnorable t = isIgnorable s := by
  have heq : ∀ u, isIgnorable u = ((Text.trim u).isEmpty ||
      (Text.after? '#' (Text.trim u)).isSome ||
      ((Text.after? '/' (Text.trim u)).bind (Text.after? '/')).isSome) := by
    intro u
    unfold isIgnorable
    cases Text.trim u with
    | nil => rfl
    | cons c u =>
      by_cases hc : c = '#'
      · simp [Text.after?, hc]
      · by_cases hc' : c = '/'
        · cases u with
          | nil => simp [Text.after?, hc']
          | cons d u => by_cases hd : d = '/' <;> simp [Text.after?, hc', hd]
        · simp [Text.after?, hc, hc']
  have hempty : (Text.trim t).isEmpty = (Text.trim s).isEmpty := by
    rw [Bool.eq_iff_iff, List.isEmpty_iff_length_eq_zero, List.isEmpty_iff_length_eq_zero,
      h.trim.length_eq]
  have hslash : Text.Respects (Text.after? '/') := Text.respects_after? (by decide) (by decide)
  rw [heq, heq, hempty, rel_isSome (Text.respects_after? (x := '#') (by decide) (by decide) h.trim),
    rel_isSome (hslash.bind hslash h.trim)]

theorem significant_spelling {raw raw' : List (List Char)}
    (h : List.Forall₂ (SpelledIf True) raw raw') (n : Nat) :
    List.Forall₂ Correspondence.spelling.line (significant n raw) (significant n raw') := by
  induction h generalizing n with
  | nil => exact .nil
  | cons h _ ih =>
    rw [significant, significant, isIgnorable_respelled h]
    split
    · exact ih (n + 1)
    · refine .cons ⟨rfl, ?_⟩ (ih (n + 1))
      rw [String.toList_ofList, String.toList_ofList]
      exact h.trim

/-- The significant lines of two spellings of a source. -/
theorem lines_spelling {a b : String} (h : folded a = folded b) :
    List.Forall₂ Correspondence.spelling.line (lines a) (lines b) := by
  rw [lines_eq_significant, lines_eq_significant]
  refine significant_spelling ?_ 1
  have hfolded : List.Forall₂ Eq (folded a) (folded b) := by
    rw [h]
    exact List.forall₂_refl _
  rw [folded, folded, List.forall₂_map_left_iff, List.forall₂_map_right_iff] at hfolded
  exact hfolded.imp fun _ _ hfold => .of_fold hfold

end Source

theorem compileBody_spelling (ctx : Context) (scope : Scope) {lines lines' : List Line}
    (h : List.Forall₂ Correspondence.spelling.line lines lines') :
    Correspondence.spelling.Agree Eq (compileBody ctx scope lines)
      (compileBody ctx scope lines') := by
  have hnumbers : lines.map (·.number) = lines'.map (·.number) := by
    induction h with
    | nil => rfl
    | cons hline _ ih => rw [List.map_cons, List.map_cons, hline.1, ih]
  refine Correspondence.Spelling.bind (Correspondence.spelling_fair.compileWithin rfl
    ctx.settings.maxNesting rfl scope h le_rfl le_rfl) fun statements _ => ?_
  rw [← List.getLast?_map, ← List.getLast?_map, hnumbers]
  exact Correspondence.Spelling.same _

namespace Definition

/-- **The case of letters is of no importance outside of text literals.** Two spellings of a source
compile to the same program, or they are refused on the same line. -/
theorem compile_spelling (library : Library) (settings : Settings) (d : Definition)
    (source : String) (h : Source.folded d.source = Source.folded source) :
    (∃ p, compile library settings d = .ok p ∧
      compile library settings { d with source } = .ok p) ∨
    ∃ e e', compile library settings d = .error e ∧
      compile library settings { d with source } = .error e' ∧ e.line = e'.line := by
  have hagree : Correspondence.spelling.Agree Eq (compile library settings d)
      (compile library settings { d with source }) := by
    refine Correspondence.Spelling.bind (Correspondence.Spelling.same _) fun scope _ => ?_
    refine Correspondence.Spelling.bind (compileBody_spelling _ scope (Source.lines_spelling h)) ?_
    exact fun body _ => .ok rfl
  generalize compile library settings d = x at hagree ⊢
  generalize compile library settings { d with source } = y at hagree ⊢
  cases hagree with
  | @ok p p' hp =>
    cases hp
    exact Or.inl ⟨p, rfl, rfl⟩
  | @error e e' he => exact Or.inr ⟨e, e', rfl, rfl, he⟩
  | excused hexcused => exact hexcused.elim

/-- A greeting with capital letters in its keywords, its names and its literals. -/
def greeting : Definition :=
  ⟨"greet", .text, [("guest", .text)], "\n".intercalate
    ["VAR Words AS Text = \"Hello, \"", "If (GUEST == 'Ann \\'A\\'')", "WORDS += \"Dear \"",
      "End If", "Return words + Guest"]⟩

/-- The same with capital letters in its literals only. -/
def greetingInLowerCase : String :=
  "\n".intercalate ["var words as text = \"Hello, \"", "if (guest == 'Ann \\'A\\'')",
    "words += \"Dear \"", "end if", "return words + guest"]

theorem compile_spelling_greeting :
    Source.folded greeting.source = Source.folded greetingInLowerCase ∧
    ∃ p, compile .standard {} greeting = .ok p ∧
      compile .standard {} { greeting with source := greetingInLowerCase } = .ok p := by
  have hfolded : Source.folded greeting.source = Source.folded greetingInLowerCase := by
    decide +kernel
  refine ⟨hfolded, ?_⟩
  rcases compile_spelling .standard {} greeting greetingInLowerCase hfolded with
    hok | ⟨e, e', he, -⟩
  · exact hok
  · have hcompiles : (compile .standard {} greeting).isOk = true := by decide +kernel
    rw [he] at hcompiles
    cases hcompiles

end Definition

end WorldScript
