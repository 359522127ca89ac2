import WorldScript.Proofs.Text.Spelling
import WorldScript.Statement.Form

/-! # Other spellings of a line

Two spellings of a line are of the same form, and their pieces are spellings of each other. Pieces
that are names of variables or types need only be alike. An expression must be spelled as it stands
in the line, so it is of importance where it begins. That is outside of literals, if the pieces
before it have as many opening as closing quotes; and if they have not, they are no names and no
expressions, so nothing is lost by knowing no more of the text after them.

* `LineForm.Respelled`: two forms with pieces that are spellings of each other.
* `LineForm.respelled_read?`: the forms of two spellings of a line. -/

namespace WorldScript.LineForm

open Text
open Text.Quoting (outside)

/-! ### Pieces of lines -/

section Pieces

variable {b : Prop} {s t : List Char}

theorem respects_afterBlanks? : Respects afterBlanks? := by
  intro b s t h
  cases s with
  | nil =>
    obtain rfl := h.eq_nil
    exact .none
  | cons c s =>
    obtain ⟨d, u, rfl, hcd, -⟩ := h.exists_cons
    have hblank : isBlank d = isBlank c := by rw [← isBlank_toLower d, ← hcd, isBlank_toLower]
    simp only [afterBlanks?, hblank]
    split
    · exact .some h.trimLeft
    · exact .none

theorem respects_nonempty? : Respects nonempty? := by
  intro b s t h
  have hempty : t.isEmpty = s.isEmpty := by
    rw [Bool.eq_iff_iff, List.isEmpty_iff_length_eq_zero, List.isEmpty_iff_length_eq_zero,
      h.length_eq]
  simp only [nonempty?, hempty]
  split
  · exact .none
  · exact .some h

theorem respects_beforeClose? : Respects beforeClose? := by
  intro b s t h
  have hlast : s.getLast? = some ')' ↔ t.getLast? = some ')' := by
    have hlower : s.getLast?.map Char.toLower = t.getLast?.map Char.toLower := by
      rw [← List.getLast?_map, ← List.getLast?_map, h.alike]
    cases hs : s.getLast? with
    | none =>
      cases ht : t.getLast? with
      | none => rfl
      | some d =>
        rw [hs, ht] at hlower
        cases hlower
    | some c =>
      cases ht : t.getLast? with
      | none =>
        rw [hs, ht] at hlower
        cases hlower
      | some d =>
        rw [hs, ht] at hlower
        rw [Option.some.injEq, Option.some.injEq]
        exact eq_iff_of_toLower (Option.some.inj hlower) (by decide)
  simp only [beforeClose?, ← hlast]
  split
  · rw [List.dropLast_eq_take, List.dropLast_eq_take, h.length_eq]
    exact .some (h.take _)
  · exact .none

theorem respects_parenthesized? : Respects parenthesized? := by
  have heq : ∀ s, parenthesized? s = (after? '(' (trimLeft s)).bind beforeClose? := by
    intro s
    unfold parenthesized?
    cases trimLeft s with
    | nil => rfl
    | cons c rest => by_cases hc : c = '(' <;> simp [after?, hc]
  intro b s t h
  rw [heq, heq]
  exact rel_bind (respects_after? (by decide) (by decide) h.trimLeft) fun _ _ hr =>
    respects_beforeClose? hr

theorem respects_afterEquals? : Respects afterEquals? := by
  have heq : ∀ s, afterEquals? s = (after? '=' (trimLeft s)).bind nonempty? := by
    intro s
    unfold afterEquals?
    cases trimLeft s with
    | nil => rfl
    | cons c rest => by_cases hc : c = '=' <;> simp [after?, hc]
  intro b s t h
  rw [heq, heq]
  exact rel_bind (respects_after? (by decide) (by decide) h.trimLeft) fun _ _ hr =>
    respects_nonempty? hr

theorem respects_forRest? : Respects forRest? := by
  have heq : ∀ s, forRest? s =
      (after? ':' (trimLeft s)).bind fun r => (beforeClose? r).bind nonempty? := by
    intro s
    unfold forRest?
    cases trimLeft s with
    | nil => rfl
    | cons c rest => by_cases hc : c = ':' <;> simp [after?, hc]
  intro b s t h
  rw [heq, heq]
  exact rel_bind (respects_after? (by decide) (by decide) h.trimLeft) fun _ _ hr =>
    respects_beforeClose?.bind respects_nonempty? hr

theorem respects_afterBracket? {form : List Char → Option (List Char)} (hform : Respects form) :
    Respects (afterBracket? form) := by
  intro b s t h
  have heq : ∀ s, afterBracket? form s = (after? ']' s).bind form := by
    intro s
    cases s with
    | nil => rfl
    | cons c rest => by_cases hc : c = ']' <;> simp [afterBracket?, after?, hc]
  rw [heq, heq]
  exact rel_bind (respects_after? (by decide) (by decide) h) fun _ _ hr => hform hr

theorem respects_operand? : Respects operand? := respects_afterBlanks?.bind respects_nonempty?

section Words

variable {word : String} (hword : word.toList.all (!isQuote ·) = true)

include hword

theorem respects_afterKeyword? : Respects (afterKeyword? word) :=
  (respects_keyword? hword).bind respects_afterBlanks?

theorem respects_keywordParens? : Respects (keywordParens? word) :=
  (respects_keyword? hword).bind respects_parenthesized?

end Words

theorem isEnd_respelled (word : String) (h : Text.Respelled outside b s t) :
    isEnd word t = isEnd word s := by
  have hend : Respects (keyword? "end".toList) := respects_keyword? (by decide)
  unfold isEnd
  rcases rel_eq_or (hend h) with ⟨hs, ht⟩ | ⟨r, r', hs, ht, hr⟩
  · rw [hs, ht]
  · rw [hs, ht]
    exact hr.trimLeft.isKeyword word

theorem startsWithWord_respelled (word : String) (h : Text.Respelled outside b s t) :
    startsWithWord word t = startsWithWord word s := by
  unfold startsWithWord
  rcases rel_eq_or (h.keyword? word.toList) with ⟨hs, ht⟩ | ⟨r, r', hs, ht, hr⟩
  · rw [hs, ht]
  · rw [hs, ht]
    cases r with
    | nil =>
      obtain rfl := hr.eq_nil
      rfl
    | cons c r =>
      obtain ⟨d, u, rfl, hcd, -⟩ := hr.exists_cons
      have hchar : isWordChar d = isWordChar c := by
        rw [← isWordChar_toLower d, ← hcd, isWordChar_toLower]
      simp only [hchar]

theorem respects_forEachRest? : Respects forEachRest? := by
  intro b s t h
  refine rel_bind (respects_afterBlanks? h) fun s t h => ?_
  refine rel_bind (respects_keyword? (by decide) h) fun s t h => ?_
  cases s with
  | nil =>
    obtain rfl := h.eq_nil
    exact .none
  | cons c s =>
    obtain ⟨d, u, rfl, hcd, -, hrest⟩ := h.exists_cons
    have hblank : isBlank d = isBlank c := by rw [← isBlank_toLower d, ← hcd, isBlank_toLower]
    simp only [hblank]
    split
    · rename_i hc
      rw [Quoting.next_outside (isQuote_eq_false rfl rfl hc)] at hrest
      exact respects_beforeClose?.bind respects_nonempty? hrest
    · exact .none

/-! ### Cuts -/

section Cuts

variable {p : Quoting} {form : List Char → Option (List Char)} (hform : Respects form)

include hform

/-- Two spellings are cut at the same place. -/
theorem cutBefore_respelled (h : Text.Respelled p b s t) :
    Text.Respelled p b (cutBefore form s).1 (cutBefore form t).1 ∧
      Option.Rel (Text.Respelled outside (b ∧ p.after (cutBefore form s).1 = outside))
        (cutBefore form s).2 (cutBefore form t).2 := by
  induction s generalizing p t with
  | nil =>
    obtain rfl := h.eq_nil
    exact ⟨.nil, .none⟩
  | cons c s ih =>
    obtain ⟨d, u, rfl, hcd, hfold, hrest⟩ := h.exists_cons
    have hc : ∀ {v w}, Text.Respelled (p.next c) b v w → Text.Respelled p b (c :: v) (d :: w) :=
      fun hvw => Text.Respelled.cons_iff.mpr ⟨hcd, hfold, hvw⟩
    simp only [cutBefore]
    rcases rel_eq_or (hform hrest.toOutside) with ⟨hs, ht⟩ | ⟨r, r', hs, ht, hr⟩
    · rw [hs, ht]
      obtain ⟨hbefore, hfound⟩ := ih hrest
      exact ⟨hc hbefore, hfound⟩
    · rw [hs, ht]
      exact ⟨hc .nil, .some hr⟩

theorem longestRun?_respelled (h : Text.Respelled p b s t) :
    Option.Rel (fun x y => Text.Respelled p b x.1 y.1 ∧
        Text.Respelled outside (b ∧ p.after x.1 = outside) x.2 y.2)
      (longestRun? form s) (longestRun? form t) := by
  induction s generalizing p t with
  | nil =>
    obtain rfl := h.eq_nil
    exact .none
  | cons c s ih =>
    obtain ⟨d, u, rfl, hcd, hfold, hrest⟩ := h.exists_cons
    have hc : ∀ {v w}, Text.Respelled (p.next c) b v w → Text.Respelled p b (c :: v) (d :: w) :=
      fun hvw => Text.Respelled.cons_iff.mpr ⟨hcd, hfold, hvw⟩
    have hblank : isBlank d = isBlank c := by rw [← isBlank_toLower d, ← hcd, isBlank_toLower]
    simp only [longestRun?, hblank]
    split
    · exact .none
    · rcases rel_eq_or (ih hrest) with ⟨hs, ht⟩ | ⟨r, r', hs, ht, hrun, hfound⟩
      · rw [hs, ht]
        exact rel_map (hform hrest.toOutside) fun _ _ hr => ⟨hc .nil, hr⟩
      · rw [hs, ht]
        exact .some ⟨hc hrun, hfound⟩

end Cuts

/-- A name in front of something. An `@` in front of it may count or not. -/
theorem nameBefore?_respelled {form : List Char → Option (List Char)} (hform : Respects form)
    (h : Text.Respelled outside b s t) :
    Option.Rel (NamesAlike b) (nameBefore? form s) (nameBefore? form t) := by
  have hrun : ∀ {u v : List Char}, Text.Respelled outside b u v →
      Option.Rel (NamesAlike b) (longestRun? form u) (longestRun? form v) := fun huv =>
    rel_imp (longestRun?_respelled hform huv) fun _ _ hr => ⟨hr.1.alike, hr.2⟩
  have heq : ∀ s, nameBefore? form s =
      ((after? '@' s).bind (longestRun? form)).or (longestRun? form s) := by
    intro s
    cases s with
    | nil => rfl
    | cons c rest => by_cases hc : c = '@' <;> simp [nameBefore?, after?, hc]
  rw [heq, heq]
  have hafter := rel_bind (respects_after? (x := '@') (by decide) (by decide) h) fun _ _ => hrun
  rcases rel_eq_or hafter with ⟨hs, ht⟩ | ⟨r, r', hs, ht, hr⟩
  · rw [hs, ht]
    exact hrun h
  · rw [hs, ht]
    exact .some hr

theorem target?_respelled (h : Text.Respelled outside b s t) :
    Option.Rel (fun x y => Alike x.1 y.1 ∧ Text.Respelled outside b x.2 y.2)
      (target? s) (target? t) := by
  have heq : ∀ s, target? s = (after? '@' s).elim (word? s) word? := by
    intro s
    cases s with
    | nil => rfl
    | cons c rest => by_cases hc : c = '@' <;> simp [target?, after?, hc]
  rw [heq, heq]
  rcases rel_eq_or (respects_after? (x := '@') (by decide) (by decide) h) with
    ⟨hs, ht⟩ | ⟨r, r', hs, ht, hr⟩
  · rw [hs, ht]
    exact h.word?
  · rw [hs, ht]
    exact hr.word?

/-- A key in brackets, and what follows it. -/
theorem afterKey?_respelled {form : List Char → Option (List Char)} (hform : Respects form)
    (h : Text.Respelled outside b s t) :
    Option.Rel (fun x y => Text.Respelled outside b x.1 y.1 ∧
        Text.Respelled outside (b ∧ Closed x.1) x.2 y.2)
      (afterKey? form s) (afterKey? form t) := by
  have heq : ∀ s, afterKey? form s = (after? '[' (trimLeft s)).bind fun r =>
      (cutBefore (afterBracket? form) r).2.map (Prod.mk (cutBefore (afterBracket? form) r).1) := by
    intro s
    unfold afterKey?
    cases trimLeft s with
    | nil => rfl
    | cons c rest =>
      by_cases hc : c = '['
      · subst hc
        simp only [after?, if_true, Option.bind_some]
        split
        · rename_i hcut
          rw [hcut]
          rfl
        · rename_i hcut
          rw [hcut]
          rfl
      · simp [after?, hc]
  rw [heq, heq]
  refine rel_bind (respects_after? (by decide) (by decide) h.trimLeft) fun r r' hr => ?_
  obtain ⟨hkey, hfound⟩ := cutBefore_respelled (respects_afterBracket? hform) hr
  exact rel_map hfound fun _ _ hitem => ⟨hkey, hitem⟩

end Pieces

/-! ### Forms -/

/-- Two spellings of an expression that begins outside of literals, if the condition holds. -/
abbrev SpelledIf (b : Prop) (s t : List Char) : Prop := Text.Respelled outside b s t

/-- Two forms with pieces that are spellings of each other. -/
inductive Respelled : LineForm → LineForm → Prop
  | declare {name name' type type' : List Char} {initial initial' : Option (List Char)} :
    Alike name name' → Alike type type' →
    Option.Rel (SpelledIf (Closed name ∧ Closed type)) initial initial' →
    Respelled (.declare name type initial) (.declare name' type' initial')
  | ifChain {test test' : List Char} : SpelledIf True test test' →
    Respelled (.ifChain test) (.ifChain test')
  | forCount {name name' count count' : List Char} : Alike name name' →
    SpelledIf (Closed name) count count' → Respelled (.forCount name count) (.forCount name' count')
  | forEach {name name' items items' : List Char} : Alike name name' →
    SpelledIf (Closed name) items items' → Respelled (.forEach name items) (.forEach name' items')
  | whileLoop {test test' : List Char} : SpelledIf True test test' →
    Respelled (.whileLoop test) (.whileLoop test')
  | switch {value value' : List Char} : SpelledIf True value value' →
    Respelled (.switch value) (.switch value')
  | delay {duration duration' : List Char} : SpelledIf True duration duration' →
    Respelled (.delay duration) (.delay duration')
  | breakOut : Respelled .breakOut .breakOut
  | continueOn : Respelled .continueOn .continueOn
  | returnWith {value value' : Option (List Char)} : Option.Rel (SpelledIf True) value value' →
    Respelled (.returnWith value) (.returnWith value')
  | addItem {name name' item item' : List Char} : Alike name name' → SpelledIf True item item' →
    Respelled (.addItem name none item) (.addItem name' none item')
  | addKeyed {name name' key key' item item' : List Char} : Alike name name' →
    SpelledIf True key key' → SpelledIf (Closed key) item item' →
    Respelled (.addItem name (some key) item) (.addItem name' (some key') item')
  | addRange {name name' items items' : List Char} : Alike name name' →
    SpelledIf True items items' → Respelled (.addRange name items) (.addRange name' items')
  | removeItem {name name' item item' : List Char} : Alike name name' →
    SpelledIf True item item' → Respelled (.removeItem name item) (.removeItem name' item')
  | removeAt {name name' index index' : List Char} : Alike name name' →
    SpelledIf True index index' → Respelled (.removeAt name index) (.removeAt name' index')
  | clearItems {name name' : List Char} : Alike name name' →
    Respelled (.clearItems name) (.clearItems name')
  | setItem {name name' key key' item item' : List Char} : Alike name name' →
    SpelledIf True key key' → SpelledIf (Closed key) item item' →
    Respelled (.setItem name key item) (.setItem name' key' item')
  | removeKey {name name' key key' : List Char} : Alike name name' →
    SpelledIf True key key' → Respelled (.removeKey name key) (.removeKey name' key')
  | separator : Respelled .separator .separator
  | compound {name name' value value' : List Char} (op : CompoundOp) : Alike name name' →
    SpelledIf True value value' → Respelled (.compound name op value) (.compound name' op value')
  | assign {name name' value value' : List Char} : Alike name name' →
    SpelledIf True value value' → Respelled (.assign name value) (.assign name' value')
  | call : Respelled .call .call

theorem rel_findSome? {qs : List (List Char → Option LineForm)} {s t : List Char}
    (h : ∀ q ∈ qs, Option.Rel Respelled (q s) (q t)) :
    Option.Rel Respelled (qs.findSome? (· s)) (qs.findSome? (· t)) := by
  induction qs with
  | nil => exact .none
  | cons q qs ih =>
    rw [List.findSome?_cons, List.findSome?_cons]
    rcases rel_eq_or (h q List.mem_cons_self) with ⟨hs, ht⟩ | ⟨form, form', hs, ht, hform⟩
    · rw [hs, ht]
      exact ih fun q hq => h q (List.mem_cons_of_mem _ hq)
    · rw [hs, ht]
      exact .some hform

section Forms

variable {s t : List Char} (h : SpelledIf True s t)

include h

theorem respelled_declare? : Option.Rel Respelled (declare? s) (declare? t) := by
  refine rel_bind (respects_afterKeyword? (by decide) h) fun s t h => ?_
  have hblank : ∀ c : Char, (!isBlank c.toLower) = !isBlank c := fun c => by rw [isBlank_toLower]
  obtain ⟨hname, hrest⟩ := h.span (f := (!isBlank ·)) hblank
  have hrest : SpelledIf (Closed (s.takeWhile (!isBlank ·))) (s.dropWhile (!isBlank ·))
      (t.dropWhile (!isBlank ·)) := hrest.toOutside.imp fun hclosed => ⟨trivial, hclosed⟩
  rcases rel_eq_or (respects_nonempty? hname) with ⟨hs, ht⟩ | ⟨name, name', hs, ht, -⟩
  · rw [hs, ht]
    exact .none
  · have hwhole : ∀ {u v : List Char}, nonempty? u = some v → u = v := by
      intro u v huv
      unfold nonempty? at huv
      split at huv
      · cases huv
      · exact Option.some.inj huv
    rw [hs, ht]
    rw [hwhole hs] at hname hrest
    rw [hwhole ht] at hname
    refine rel_bind (x := afterBlanks? _) (y := afterBlanks? _) (respects_afterBlanks? hrest)
      fun s t h => ?_
    refine rel_bind (respects_afterKeyword? (by decide) h) fun s t h => ?_
    refine rel_bind (respects_nonempty? h) fun s t h => ?_
    obtain ⟨htype, hinitial⟩ := cutBefore_respelled respects_afterEquals? h
    exact .some (.declare hname.alike htype.alike hinitial)

theorem respelled_keywordParens? {word : String} (hword : word.toList.all (!isQuote ·) = true)
    {make : List Char → LineForm}
    (hmake : ∀ {u v : List Char}, SpelledIf True u v → Respelled (make u) (make v)) :
    Option.Rel Respelled ((keywordParens? word s).map make) ((keywordParens? word t).map make) :=
  rel_map (respects_keywordParens? hword h) fun _ _ => hmake

theorem respelled_keyword (word : String)
    {form : LineForm} (hform : Respelled form form) :
    Option.Rel Respelled (if isKeyword word s then some form else none)
      (if isKeyword word t then some form else none) := by
  rw [h.isKeyword word]
  split
  · exact .some hform
  · exact .none

/-- What stands in parentheses after the keyword of a counted loop or a loop over items. -/
theorem respelled_loop (word : String) (hword : word.toList.all (!isQuote ·) = true)
    {form : List Char → Option (List Char)} (hform : Respects form)
    {make : List Char → List Char → LineForm}
    (hmake : ∀ {name name' u v : List Char}, Alike name name' → SpelledIf (Closed name) u v →
      Respelled (make name u) (make name' v)) {read : List Char → Option LineForm}
    (hread : ∀ s, read s = (keyword? word.toList s).bind fun s =>
      (after? '(' (trimLeft s)).bind fun s =>
        (nameBefore? form (trimLeft s)).bind fun found => some (make found.1 found.2)) :
    Option.Rel Respelled (read s) (read t) := by
  rw [hread, hread]
  refine rel_bind (respects_keyword? hword h) fun s t h => ?_
  refine rel_bind (respects_after? (by decide) (by decide) h.trimLeft) fun s t h => ?_
  refine rel_bind (nameBefore?_respelled hform h.trimLeft) fun x y hxy => ?_
  exact .some (hmake hxy.1 (hxy.2.imp fun hclosed => ⟨trivial, hclosed⟩))

theorem respelled_forCount? : Option.Rel Respelled (forCount? s) (forCount? t) := by
  refine respelled_loop h "for" (by decide) respects_forRest? .forCount fun s => ?_
  refine congrArg (Option.bind _) (funext fun s => ?_)
  cases trimLeft s with
  | nil => rfl
  | cons c rest => by_cases hc : c = '(' <;> simp [after?, hc]

theorem respelled_forEach? : Option.Rel Respelled (forEach? s) (forEach? t) := by
  refine respelled_loop h "foreach" (by decide) respects_forEachRest? .forEach fun s => ?_
  refine congrArg (Option.bind _) (funext fun s => ?_)
  cases trimLeft s with
  | nil => rfl
  | cons c rest => by_cases hc : c = '(' <;> simp [after?, hc]

theorem respelled_return? : Option.Rel Respelled (return? s) (return? t) := by
  refine rel_bind (respects_keyword? (by decide) h) fun s t h => ?_
  cases s with
  | nil =>
    obtain rfl := h.eq_nil
    exact .some (.returnWith .none)
  | cons c s =>
    obtain ⟨d, u, rfl, -⟩ := h.exists_cons
    exact rel_map (respects_operand? h) fun _ _ hvalue => .returnWith (.some hvalue)

theorem respelled_addItem? : Option.Rel Respelled (addItem? s) (addItem? t) := by
  refine rel_bind (respects_afterKeyword? (by decide) h) fun s t h => ?_
  refine rel_bind (target?_respelled h) fun x y hxy => ?_
  obtain ⟨name, rest⟩ := x
  obtain ⟨name', rest'⟩ := y
  obtain ⟨hname, hrest⟩ := hxy
  dsimp only at hname hrest ⊢
  rcases rel_eq_or (afterKey?_respelled respects_operand? hrest) with
    ⟨hs, ht⟩ | ⟨⟨key, item⟩, ⟨key', item'⟩, hs, ht, hkey, hitem⟩
  · rw [hs, ht]
    exact rel_map (respects_operand? hrest) fun _ _ hitem => .addItem hname hitem
  · rw [hs, ht]
    exact .some (.addKeyed hname hkey (hitem.imp fun hclosed => ⟨trivial, hclosed⟩))

theorem respelled_setItem? : Option.Rel Respelled (setItem? s) (setItem? t) := by
  refine rel_bind (respects_afterKeyword? (by decide) h) fun s t h => ?_
  refine rel_bind (target?_respelled h) fun x y hxy => ?_
  refine rel_bind (afterKey?_respelled respects_afterEquals? hxy.2) fun u v huv => ?_
  exact .some (.setItem hxy.1 huv.1 (huv.2.imp fun hclosed => ⟨trivial, hclosed⟩))

theorem respelled_keywordTarget? {word : String} (hword : word.toList.all (!isQuote ·) = true)
    {make : List Char → List Char → LineForm}
    (hmake : ∀ {name name' u v : List Char}, Alike name name' → SpelledIf True u v →
      Respelled (make name u) (make name' v)) :
    Option.Rel Respelled (keywordTarget? word make s) (keywordTarget? word make t) := by
  refine rel_bind (respects_afterKeyword? hword h) fun s t h => ?_
  refine rel_bind (target?_respelled h) fun x y hxy => ?_
  refine rel_bind (respects_operand? hxy.2) fun u v huv => ?_
  exact .some (hmake hxy.1 huv)

theorem respelled_clearItems? : Option.Rel Respelled (clearItems? s) (clearItems? t) := by
  refine rel_bind (respects_afterKeyword? (by decide) h) fun s t h => ?_
  refine rel_bind (target?_respelled h) fun x y hxy => ?_
  obtain ⟨name, rest⟩ := x
  obtain ⟨name', rest'⟩ := y
  obtain ⟨hname, hrest⟩ := hxy
  dsimp only at hname hrest ⊢
  cases rest with
  | nil =>
    obtain rfl := hrest.eq_nil
    exact .some (.clearItems hname)
  | cons c rest =>
    obtain ⟨d, u, rfl, -⟩ := hrest.exists_cons
    exact .none

theorem respelled_separator? : Option.Rel Respelled (separator? s) (separator? t) := by
  have hends : (isEnd · t) = (isEnd · s) := funext fun word => isEnd_respelled word h
  unfold separator?
  rw [h.isKeyword, h.isKeyword, startsWithWord_respelled _ h, startsWithWord_respelled _ h, hends]
  split
  · exact .some .separator
  · exact .none

theorem respelled_compound? : Option.Rel Respelled (compound? s) (compound? t) := by
  have heq : ∀ s, compound? s = (target? s).bind fun x => (trimLeft x.2).head?.bind fun c =>
      (compoundOp? c).bind fun op => (after? '=' (trimLeft x.2).tail).bind fun value =>
        (nonempty? value).bind fun value => some (.compound x.1 op value) := by
    intro s
    refine congrArg (Option.bind _) (funext fun x => ?_)
    obtain ⟨name, rest⟩ := x
    dsimp only
    cases trimLeft rest with
    | nil => rfl
    | cons c rest =>
      cases hop : compoundOp? c with
      | none =>
        cases rest with
        | nil => simp [hop]
        | cons d rest => by_cases hd : d = '=' <;> simp [after?, hop, hd]
      | some op =>
        cases rest with
        | nil => simp [after?]
        | cons d rest => by_cases hd : d = '=' <;> simp [after?, hop, hd]
  have hlower : ∀ c : Char, compoundOp? c.toLower = compoundOp? c := apply_toLower (by decide)
  rw [heq, heq]
  refine rel_bind (target?_respelled h) fun x y hxy => ?_
  have hrest := hxy.2.trimLeft
  cases hu : trimLeft x.2 with
  | nil =>
    rw [hu] at hrest
    rw [hrest.eq_nil]
    exact .none
  | cons c u =>
    rw [hu] at hrest
    obtain ⟨d, v, hv, hcd, -, huv⟩ := hrest.exists_cons
    have hop : compoundOp? d = compoundOp? c := by rw [← hlower d, ← hcd, hlower]
    rw [hv]
    simp only [List.head?_cons, List.tail_cons, Option.bind_some, hop]
    cases hc : compoundOp? c with
    | none => exact .none
    | some op =>
      have hquote : isQuote c = false :=
        isQuote_eq_false (f := fun c => (compoundOp? c).isSome) rfl rfl (by rw [hc]; rfl)
      rw [Quoting.next_outside hquote] at huv
      rw [Option.bind_some, Option.bind_some]
      refine rel_bind (respects_after? (x := '=') (by decide) (by decide) huv) fun u v huv => ?_
      exact rel_bind (respects_nonempty? huv) fun u v huv => .some (.compound op hxy.1 huv)

theorem respelled_assign? : Option.Rel Respelled (assign? s) (assign? t) := by
  have heq : ∀ s, assign? s =
      (target? s).bind fun x => (after? '=' (trimLeft x.2)).bind fun value =>
        if value = [] ∨ value.head? = some '=' then none else some (.assign x.1 value) := by
    intro s
    refine congrArg (Option.bind _) (funext fun x => ?_)
    obtain ⟨name, rest⟩ := x
    dsimp only
    cases trimLeft rest with
    | nil => rfl
    | cons c rest =>
      by_cases hc : c = '='
      · subst hc
        cases rest with
        | nil => rfl
        | cons d rest => by_cases hd : d = '=' <;> simp [after?, hd]
      · simp [after?, hc]
  rw [heq, heq]
  refine rel_bind (target?_respelled h) fun x y hxy => ?_
  refine rel_bind (respects_after? (by decide) (by decide) hxy.2.trimLeft) fun u v huv => ?_
  cases u with
  | nil =>
    obtain rfl := huv.eq_nil
    exact .none
  | cons c u =>
    obtain ⟨d, v, rfl, hcd, -⟩ := huv.exists_cons
    have hequals := eq_iff_of_toLower hcd (x := '=') (by decide)
    simp only [reduceCtorEq, List.head?_cons, Option.some.injEq, false_or, ← hequals]
    split
    · exact .none
    · exact .some (.assign hxy.1 huv)

theorem respelled_call? : Option.Rel Respelled (call? s) (call? t) := by
  refine rel_bind h.word? fun x y hxy => ?_
  exact rel_bind (respects_parenthesized? hxy.2) fun _ _ _ => .some .call

/-- **Two spellings of a line have the same form**, with pieces that are spellings of each other. -/
theorem respelled_read? : Option.Rel Respelled (read? s) (read? t) := by
  have hall : ∀ q ∈ recognisers, Option.Rel Respelled (q s) (q t) := by
    intro q hq
    simp only [recognisers, List.mem_cons, List.not_mem_nil, or_false] at hq
    rcases hq with rfl | rfl | rfl | rfl | rfl | rfl | rfl | rfl | rfl | rfl | rfl | rfl | rfl |
      rfl | rfl | rfl | rfl | rfl | rfl | rfl | rfl
    · exact respelled_declare? h
    · exact respelled_keywordParens? h (by decide) .ifChain
    · exact respelled_forCount? h
    · exact respelled_forEach? h
    · exact respelled_keywordParens? h (by decide) .whileLoop
    · exact respelled_keywordParens? h (by decide) .switch
    · exact respelled_keywordParens? h (by decide) .delay
    · exact respelled_keyword h "break" .breakOut
    · exact respelled_keyword h "continue" .continueOn
    · exact respelled_return? h
    · exact respelled_addItem? h
    · exact respelled_keywordTarget? h (by decide) .addRange
    · exact respelled_keywordTarget? h (by decide) .removeItem
    · exact respelled_keywordTarget? h (by decide) .removeAt
    · exact respelled_clearItems? h
    · exact respelled_setItem? h
    · exact respelled_keywordTarget? h (by decide) .removeKey
    · exact respelled_separator? h
    · exact respelled_compound? h
    · exact respelled_assign? h
    · exact respelled_call? h
  exact rel_findSome? hall

/-! ### Lines inside of blocks -/

theorem respelled_elseIf? : Option.Rel (SpelledIf True) (elseIf? s) (elseIf? t) :=
  rel_bind (respects_keyword? (by decide) h) fun _ _ h =>
    respects_keywordParens? (by decide) h.trimLeft

theorem respelled_case? : Option.Rel (SpelledIf True) (case? s) (case? t) :=
  respects_keywordParens? (by decide) h

theorem isArmEnd_respelled : isArmEnd t = isArmEnd s := by
  rw [isArmEnd, isArmEnd, isEnd_respelled _ h, h.isKeyword,
    rel_isSome (respelled_elseIf? h)]

theorem isSectionEnd_respelled : isSectionEnd t = isSectionEnd s := by
  rw [isSectionEnd, isSectionEnd, isEnd_respelled _ h, h.isKeyword,
    rel_isSome (respelled_case? h)]

end Forms

end WorldScript.LineForm
