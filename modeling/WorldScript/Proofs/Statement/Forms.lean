import WorldScript.Statement.Form
import WorldScript.Ty.Name
import WorldScript.Name
import WorldScript.Expr.Typing
import WorldScript.Library.Standard
import WorldScript.Proofs.Expr.Scanning
import WorldScript.Proofs.Ty.Shape

/-! # Every form of line is recognised as itself

The forms of lines overlap: they are tried in a fixed order, and the expressions, names and types
inside of a line are any texts of their kind. Here a line of each form is written out with such
texts, and it is shown that no earlier form takes it and that the pieces are cut where they were put
together.

* `LineForm.none_of_name`: a line that starts with a name is of none of the forms that start with a
  word of the language.
* `LineForm.cutBefore_append`: where a line is cut.
* `LineForm.firstBy_written`: the lines of each kind. -/

namespace WorldScript

/-! ### Characters of names -/

namespace Text

theorem toNat_lt_of_isWordChar {c : Char} (h : Token.isWordChar c = true) : c.toNat < 128 := by
  simp only [Token.isWordChar, Char.isAlphanum, Bool.or_eq_true, beq_iff_eq] at h
  rcases h with (h | h) | rfl
  · have hrange := isAlpha_range h
    omega
  · simp only [Char.isDigit, Bool.and_eq_true, decide_eq_true_eq, UInt32.le_iff_toNat_le] at h
    exact Nat.lt_of_le_of_lt h.2 (by decide)
  · decide

/-- The characters of names can be part of a word, in each sense of that, and are not blank. -/
theorem of_isWordChar {c : Char} (h : Token.isWordChar c = true) :
    isNameChar c = true ∧ isWordChar c = true ∧ isBlank c = false ∧ letter c = c.toLower ∧
      c ≠ '(' := by
  have hall : ∀ n < 128, Token.isWordChar (Char.ofNat n) = true →
      isNameChar (Char.ofNat n) = true ∧ isWordChar (Char.ofNat n) = true ∧
      isBlank (Char.ofNat n) = false ∧ letter (Char.ofNat n) = (Char.ofNat n).toLower ∧
      Char.ofNat n ≠ '(' := by decide +kernel
  have hchar := hall c.toNat (toNat_lt_of_isWordChar h)
  rw [Char.ofNat_toNat] at hchar
  exact hchar h

theorem isLetter_of_isAlpha {c : Char} (h : c.isAlpha = true) : isLetter c = true ∧ c ≠ '@' := by
  have hall : ∀ n < 128, (Char.ofNat n).isAlpha = true →
      isLetter (Char.ofNat n) = true ∧ Char.ofNat n ≠ '@' := by decide +kernel
  have hrange := isAlpha_range h
  have hchar := hall c.toNat (by omega)
  rw [Char.ofNat_toNat] at hchar
  exact hchar h

theorem isNameChar_of_isBlank {c : Char} (h : isBlank c = true) : isNameChar c = false := by
  have hall : ∀ n ∈ List.range' 9 5 ++ List.range' 8192 11 ++
      [32, 133, 160, 5760, 8232, 8233, 8239, 8287, 12288],
      isNameChar (Char.ofNat n) = false := by decide +kernel
  have hmem : c.toNat ∈ List.range' 9 5 ++ List.range' 8192 11 ++
      [32, 133, 160, 5760, 8232, 8233, 8239, 8287, 12288] := by
    simp only [isBlank, Bool.or_eq_true, Bool.and_eq_true, decide_eq_true_eq, beq_iff_eq] at h
    simp only [List.mem_append, List.mem_range'_1, List.mem_cons, List.not_mem_nil, or_false]
    omega
  have hchar := hall c.toNat hmem
  rwa [Char.ofNat_toNat] at hchar

/-! ### Keywords at the start of a name -/

/-- A keyword does not go on past the characters of names. -/
theorem keyword?_append_break {word : List Char} (hword : word.all Char.isLower = true)
    {c : Char} (hc : isNameChar c = false) (s t : List Char) :
    keyword? word (s ++ c :: t) = (keyword? word s).map (· ++ c :: t) := by
  induction word generalizing s with
  | nil => simp [keyword?]
  | cons w ws ih =>
    rw [List.all_cons, Bool.and_eq_true] at hword
    cases s with
    | nil =>
      have hne : letter c ≠ w := by
        rintro rfl
        have hlower : isLetter c = true := hword.1
        simp [isNameChar, hlower] at hc
      simp [keyword?, hne]
    | cons d s =>
      simp only [List.cons_append, keyword?]
      split
      · exact ih hword.2 s
      · rfl

theorem isKeyword_append_break (word : String) (hword : word.toList.all Char.isLower = true)
    {c : Char} (hc : isNameChar c = false) (s t : List Char) :
    isKeyword word (s ++ c :: t) = false := by
  rw [isKeyword, keyword?_append_break hword hc]
  cases keyword? word.toList s <;> simp

theorem keyword?_suffix {word s r : List Char} (h : keyword? word s = some r) : r <:+ s := by
  induction word generalizing s with
  | nil =>
    cases h
    exact List.suffix_refl _
  | cons w ws ih =>
    cases s with
    | nil => cases h
    | cons c s =>
      simp only [keyword?] at h
      split at h
      · exact (ih h).trans (List.suffix_cons c s)
      · cases h

theorem map_toLower_of_keyword? {word s : List Char} (hs : ∀ c ∈ s, letter c = c.toLower)
    (h : keyword? word s = some []) : s.map Char.toLower = word := by
  induction word generalizing s with
  | nil =>
    cases h
    rfl
  | cons w ws ih =>
    cases s with
    | nil => cases h
    | cons c s =>
      simp only [keyword?] at h
      split at h
      · rename_i hw
        rw [List.map_cons, ← hs c List.mem_cons_self, hw,
          ih (fun d hd => hs d (List.mem_cons_of_mem c hd)) h]
      · cases h

end Text

namespace Name

theorem chars_of_isValid {name : String} (h : isValid name = true) :
    (∃ c cs, name.toList = c :: cs ∧ c.isAlpha = true) ∧
      ∀ c ∈ name.toList, Token.isWordChar c = true := by
  unfold isValid at h
  split at h
  · cases h
  · rename_i c cs hname
    simp only [Bool.and_eq_true, List.all_eq_true] at h
    refine ⟨⟨c, cs, hname, h.1⟩, fun d hd => ?_⟩
    rw [hname] at hd
    rcases List.mem_cons.mp hd with rfl | hd
    · simp [Token.isWordChar, Char.isAlphanum, h.1]
    · exact h.2 d hd

/-- A name that is not reserved is no word of the language, in any case of its letters. -/
theorem keyword?_ne_nil {name word : String} (hname : isValid name = true)
    (hfree : isReserved name = false) (hword : word ∈ reservedWords) :
    Text.keyword? word.toList name.toList ≠ some [] := by
  intro h
  have hlower := Text.map_toLower_of_keyword?
    (fun c hc => (Text.of_isWordChar ((chars_of_isValid hname).2 c hc)).2.2.2.1) h
  rw [isReserved, Text.lower, hlower, String.ofList_toList, List.contains_eq_mem] at hfree
  simp [hword] at hfree

end Name

namespace LineForm

open Text

section Names

variable {name : String} (hname : Name.isValid name = true)
  (hfree : Name.isReserved name = false) {c : Char} (hc : isNameChar c = false) (t : List Char)
  (word : String) (hlower : word.toList.all Char.isLower = true)

include hname hc

/-- The name at the start of a text. -/
theorem word?_name : word? (name.toList ++ c :: t) = some (name.toList, c :: t) := by
  obtain ⟨⟨d, ds, hd, halpha⟩, hall⟩ := Name.chars_of_isValid hname
  have hchars : ∀ x ∈ name.toList, isNameChar x = true := fun x hx =>
    (of_isWordChar (hall x hx)).1
  have htake : (name.toList ++ c :: t).takeWhile isNameChar = name.toList := by
    rw [List.takeWhile_append_of_pos hchars]
    simp [hc]
  have hdrop : (name.toList ++ c :: t).dropWhile isNameChar = c :: t := by
    rw [List.dropWhile_append_of_pos hchars]
    simp [hc]
  rw [hd] at htake hdrop ⊢
  simp only [List.cons_append] at htake hdrop ⊢
  simp only [word?, (isLetter_of_isAlpha halpha).1, if_true, htake, hdrop]

theorem target?_name : target? (name.toList ++ c :: t) = some (name.toList, c :: t) := by
  obtain ⟨⟨d, ds, hd, halpha⟩, -⟩ := Name.chars_of_isValid hname
  unfold target?
  split
  · rename_i rest hat
    rw [hd] at hat
    cases hat
    exact absurd rfl (isLetter_of_isAlpha halpha).2
  · exact word?_name hname hc t

include hlower

/-- A name goes on after a keyword at its start, or is the keyword. -/
theorem keyword?_name :
    keyword? word.toList (name.toList ++ c :: t) = none ∨
      keyword? word.toList name.toList = some [] ∧
        keyword? word.toList (name.toList ++ c :: t) = some (c :: t) ∨
      ∃ d ds, keyword? word.toList (name.toList ++ c :: t) = some (d :: (ds ++ c :: t)) ∧
        Token.isWordChar d = true := by
  rw [keyword?_append_break hlower hc]
  cases h : keyword? word.toList name.toList with
  | none => exact Or.inl rfl
  | some rest =>
    cases rest with
    | nil => exact Or.inr (Or.inl ⟨rfl, rfl⟩)
    | cons d ds =>
      refine Or.inr (Or.inr ⟨d, ds, rfl, ?_⟩)
      exact (Name.chars_of_isValid hname).2 d ((keyword?_suffix h).mem List.mem_cons_self)

/-- After a keyword and blanks at the start of a line that begins with a name, no other name
follows if none follows the first. -/
theorem target?_afterKeyword? (hrest : target? (trimLeft (c :: t)) = none) {r : List Char}
    (h : afterKeyword? word (name.toList ++ c :: t) = some r) : target? r = none := by
  unfold afterKeyword? at h
  rcases keyword?_name hname hc t word hlower with hkey | ⟨-, hkey⟩ | ⟨d, ds, hkey, hd⟩
  · rw [hkey] at h
    cases h
  · simp only [hkey, Option.bind_some, afterBlanks?] at h
    split at h
    · cases h
      exact hrest
    · cases h
  · rw [hkey, Option.bind_some] at h
    simp [afterBlanks?, (of_isWordChar hd).2.2.1] at h

variable (hword : word ∈ Name.reservedWords)

include hfree hword

/-- A name that is not reserved goes on after a word of the language at its start. -/
theorem keyword?_name_of_reserved :
    keyword? word.toList (name.toList ++ c :: t) = none ∨
      ∃ d ds, keyword? word.toList (name.toList ++ c :: t) = some (d :: (ds ++ c :: t)) ∧
        Token.isWordChar d = true := by
  rcases keyword?_name hname hc t word hlower with h | ⟨h, -⟩ | h
  · exact Or.inl h
  · exact absurd h (Name.keyword?_ne_nil hname hfree hword)
  · exact Or.inr h

theorem afterKeyword?_of_reserved : afterKeyword? word (name.toList ++ c :: t) = none := by
  unfold afterKeyword?
  rcases keyword?_name_of_reserved hname hfree hc t word hlower hword with h | ⟨d, ds, h, hd⟩
  · rw [h, Option.bind_none]
  · simp [h, afterBlanks?, (of_isWordChar hd).2.2.1]

/-- No parenthesis is opened after a word of the language at the start of a name. -/
theorem ne_openParen_of_reserved {r u : List Char}
    (h : keyword? word.toList (name.toList ++ c :: t) = some r) : trimLeft r ≠ '(' :: u := by
  rcases keyword?_name_of_reserved hname hfree hc t word hlower hword with h' | ⟨d, ds, h', hd⟩
  · cases h'.symm.trans h
  · cases h'.symm.trans h
    obtain ⟨-, -, hblank, -, hne⟩ := of_isWordChar hd
    rw [trimLeft, List.dropWhile_cons_of_neg (by simp [hblank])]
    exact fun heq => hne (List.cons.inj heq).1

theorem keywordParens?_of_reserved : keywordParens? word (name.toList ++ c :: t) = none := by
  unfold keywordParens?
  cases h : keyword? word.toList (name.toList ++ c :: t) with
  | none => rfl
  | some r =>
    rw [Option.bind_some, parenthesized?]
    split
    · rename_i rest hopen
      exact absurd hopen (ne_openParen_of_reserved hname hfree hc t word hlower hword h)
    · rfl

theorem startsWithWord_of_reserved : startsWithWord word (name.toList ++ c :: t) = false := by
  unfold startsWithWord
  rcases keyword?_name_of_reserved hname hfree hc t word hlower hword with h | ⟨d, ds, h, hd⟩
  · rw [h]
  · simp [h, (of_isWordChar hd).2.1]

end Names

section NameFirst

variable {name : String} (hname : Name.isValid name = true)
  (hfree : Name.isReserved name = false) {c : Char} (hc : isNameChar c = false) (t : List Char)

include hname hfree hc

theorem forCount?_name : forCount? (name.toList ++ c :: t) = none := by
  unfold forCount?
  cases h : keyword? "for".toList (name.toList ++ c :: t) with
  | none => rfl
  | some r =>
    rw [Option.bind_eq_bind, Option.bind_some]
    split
    · rename_i rest hopen
      exact absurd hopen
        (ne_openParen_of_reserved hname hfree hc t "for" (by decide) (by decide) h)
    · rfl

theorem forEach?_name : forEach? (name.toList ++ c :: t) = none := by
  unfold forEach?
  cases h : keyword? "foreach".toList (name.toList ++ c :: t) with
  | none => rfl
  | some r =>
    rw [Option.bind_eq_bind, Option.bind_some]
    split
    · rename_i rest hopen
      exact absurd hopen
        (ne_openParen_of_reserved hname hfree hc t "foreach" (by decide) (by decide) h)
    · rfl

theorem return?_name : return? (name.toList ++ c :: t) = none := by
  unfold return?
  rcases keyword?_name_of_reserved hname hfree hc t "return" (by decide) (by decide) with
    h | ⟨d, ds, h, hd⟩
  · rw [h]
    rfl
  · rw [h]
    simp [afterBlanks?, (of_isWordChar hd).2.2.1]

/-- A name is no line that belongs to a block, not even one that ends it. -/
theorem separator?_name : separator? (name.toList ++ c :: t) = none := by
  have hend : ∀ word ∈ blockWords, isEnd word (name.toList ++ c :: t) = false := by
    intro word hword
    have hlower : ∀ word ∈ blockWords, word.toList.all Char.isLower = true := by decide
    unfold isEnd
    rcases keyword?_name_of_reserved hname hfree hc t "end" (by decide) (by decide) with
      h | ⟨d, ds, h, hd⟩
    · rw [h]
    · have htrim : trimLeft (d :: (ds ++ c :: t)) = d :: ds ++ c :: t :=
        List.dropWhile_cons_of_neg (by simp [(of_isWordChar hd).2.2.1])
      simp only [h, htrim]
      exact isKeyword_append_break word (hlower word hword) hc _ t
  have hany : blockWords.any (isEnd · (name.toList ++ c :: t)) = false := by
    rw [List.any_eq_false]
    intro word hword
    simp [hend word hword]
  unfold separator?
  rw [isKeyword_append_break "else" (by decide) hc,
    startsWithWord_of_reserved hname hfree hc t "elseif" (by decide) (by decide),
    startsWithWord_of_reserved hname hfree hc t "case" (by decide) (by decide),
    isKeyword_append_break "default" (by decide) hc, hany]
  rfl

/-- **Lines that start with a name.** The first eighteen forms start with a word; a line that starts
with a name, and goes on neither with a part of it nor with another name, is of none of them. -/
theorem none_of_name (hrest : target? (trimLeft (c :: t)) = none) :
    ∀ q ∈ recognisers.take 18, q (name.toList ++ c :: t) = none := by
  have hparens := keywordParens?_of_reserved hname hfree hc t
  have htarget : ∀ word : String, word.toList.all Char.isLower = true →
      (afterKeyword? word (name.toList ++ c :: t)).bind target? = none := by
    intro word hlower
    rw [Option.bind_eq_none_iff]
    exact fun r h => target?_afterKeyword? hname hc t word hlower hrest h
  intro q hq
  simp only [recognisers, List.take_succ_cons, List.take_zero, List.mem_cons, List.not_mem_nil,
    or_false] at hq
  rcases hq with rfl | rfl | rfl | rfl | rfl | rfl | rfl | rfl | rfl | rfl | rfl | rfl | rfl | rfl |
    rfl | rfl | rfl | rfl
  · simp [declare?, afterKeyword?_of_reserved hname hfree hc t "var" (by decide) (by decide)]
  · simp [hparens "if" (by decide) (by decide)]
  · exact forCount?_name hname hfree hc t
  · exact forEach?_name hname hfree hc t
  · simp [hparens "while" (by decide) (by decide)]
  · simp [hparens "switch" (by decide) (by decide)]
  · simp [hparens "delay" (by decide) (by decide)]
  · simp [isKeyword_append_break "break" (by decide) hc]
  · simp [isKeyword_append_break "continue" (by decide) hc]
  · exact return?_name hname hfree hc t
  · simp only [addItem?, Option.bind_eq_bind, ← Option.bind_assoc, htarget "additem" (by decide),
      Option.bind_none]
  · simp only [keywordTarget?, Option.bind_eq_bind, ← Option.bind_assoc,
      htarget "addrange" (by decide), Option.bind_none]
  · simp only [keywordTarget?, Option.bind_eq_bind, ← Option.bind_assoc,
      htarget "removeitem" (by decide), Option.bind_none]
  · simp only [keywordTarget?, Option.bind_eq_bind, ← Option.bind_assoc,
      htarget "removeat" (by decide), Option.bind_none]
  · simp only [clearItems?, Option.bind_eq_bind, ← Option.bind_assoc,
      htarget "clearitems" (by decide), Option.bind_none]
  · simp only [setItem?, Option.bind_eq_bind, ← Option.bind_assoc,
      htarget "setitem" (by decide), Option.bind_none]
  · simp only [keywordTarget?, Option.bind_eq_bind, ← Option.bind_assoc,
      htarget "removekey" (by decide), Option.bind_none]
  · exact separator?_name hname hfree hc t

end NameFirst

/-! ### Where lines are cut -/

section Cuts

variable {form : List Char → Option (List Char)} {s u v : List Char}

/-- A text is cut where the rest is of the form for the first time. -/
theorem cutBefore_append (hs : s ≠ []) (hu : form u = some v)
    (hfirst : ∀ a b, s = a ++ b → a ≠ [] → b ≠ [] → form (b ++ u) = none) :
    cutBefore form (s ++ u) = (s, some v) := by
  induction s with
  | nil => exact absurd rfl hs
  | cons c s ih =>
    cases s with
    | nil => simp [cutBefore, hu]
    | cons d s =>
      have hnone : form (d :: s ++ u) = none := hfirst [c] (d :: s) rfl (by simp) (by simp)
      have hrest := ih (by simp) fun a b hab _ hb =>
        hfirst (c :: a) b (by rw [hab]; rfl) (by simp) hb
      rw [List.cons_append, cutBefore, hnone, hrest]

/-- A run of non-blanks before a blank is taken as a whole if the form follows. -/
theorem longestRun?_append (hs : s ≠ []) (hchars : ∀ c ∈ s, isBlank c = false) {c : Char}
    (hc : isBlank c = true) {t : List Char} (hform : form (c :: t) = some v) :
    longestRun? form (s ++ c :: t) = some (s, v) := by
  induction s with
  | nil => exact absurd rfl hs
  | cons d s ih =>
    have hd := hchars d List.mem_cons_self
    cases s with
    | nil => simp [longestRun?, hd, hc, hform]
    | cons e s =>
      have hrest := ih (by simp) fun x hx => hchars x (List.mem_cons_of_mem d hx)
      rw [List.cons_append, longestRun?, hrest]
      simp [hd]

theorem nameBefore?_name {name : String} (hname : Name.isValid name = true) {c : Char}
    (hc : isBlank c = true) {t : List Char} (hform : form (c :: t) = some v) :
    nameBefore? form (name.toList ++ c :: t) = some (name.toList, v) := by
  obtain ⟨⟨d, ds, hd, halpha⟩, hall⟩ := Name.chars_of_isValid hname
  have hrun : longestRun? form (name.toList ++ c :: t) = some (name.toList, v) :=
    longestRun?_append (by simp [hd]) (fun x hx => (of_isWordChar (hall x hx)).2.2.1) hc hform
  unfold nameBefore?
  split
  · rename_i rest hat
    rw [hd] at hat
    cases hat
    exact absurd rfl (isLetter_of_isAlpha halpha).2
  · exact hrun

end Cuts

end LineForm

/-! ### Names of types -/

namespace Text

theorem mem_wordStep {s : List Char} {c : Char} (hc : c ∈ s) (hblank : isBlank c = false) :
    c ∈ (s.foldr wordStep ([], [])).1 ∨ ∃ w ∈ (s.foldr wordStep ([], [])).2, c ∈ w := by
  induction s with
  | nil => cases hc
  | cons d s ih =>
    rw [List.foldr_cons, wordStep]
    rcases List.mem_cons.mp hc with rfl | hc
    · simp [hblank]
    · split
      · -- a blank ends the word that has been gathered
        rcases ih hc with hin | ⟨w, hw, hin⟩
        · have hne : (s.foldr wordStep ([], [])).1.isEmpty = false := by
            rw [List.isEmpty_eq_false_iff]
            exact List.ne_nil_of_mem hin
          exact Or.inr ⟨_, by simp [hne], hin⟩
        · refine Or.inr ⟨w, ?_, hin⟩
          dsimp only
          split
          · exact hw
          · exact List.mem_cons_of_mem _ hw
      · rcases ih hc with hin | hin
        · exact Or.inl (List.mem_cons_of_mem d hin)
        · exact Or.inr hin

/-- Every character that is not blank is in one of the words. -/
theorem mem_words {s : List Char} {c : Char} (hc : c ∈ s) (hblank : isBlank c = false) :
    ∃ w ∈ words s, c ∈ w := by
  unfold words
  rcases mem_wordStep hc hblank with hin | ⟨w, hw, hin⟩
  · have hne : (s.foldr wordStep ([], [])).1.isEmpty = false := by
      rw [List.isEmpty_eq_false_iff]
      exact List.ne_nil_of_mem hin
    exact ⟨_, by simp [hne], hin⟩
  · refine ⟨w, ?_, hin⟩
    dsimp only
    split
    · exact hw
    · exact List.mem_cons_of_mem _ hw

theorem words_of_blank {s : List Char} (h : ∀ c ∈ s, isBlank c = true) : words s = [] := by
  have hfold : s.foldr wordStep ([], []) = ([], []) := by
    induction s with
    | nil => rfl
    | cons c s ih =>
      rw [List.foldr_cons, ih fun d hd => h d (List.mem_cons_of_mem c hd), wordStep,
        if_pos (h c List.mem_cons_self)]
      rfl
  rw [words, hfold]
  rfl

end Text

namespace Ty

theorem mem_of_ofWords {ws : List String} {type : Ty} (h : ofWords ws = .ok type) :
    ws ≠ [] ∧ ∀ w ∈ ws, w ∈ (baseWords ++ shapeWords).map Prod.fst := by
  unfold ofWords at h
  split at h
  · cases h
  · rename_i first rest
    refine ⟨by simp, ?_⟩
    split at h
    · cases h
    · rename_i base hbase
      have hfirst : first ∈ (baseWords ++ shapeWords).map Prod.fst :=
        List.mem_map.mpr ⟨_, List.mem_append_left _ (mem_of_lookup hbase), rfl⟩
      split at h
      · simpa using hfirst
      · split at h
        · cases h
        · rename_i second more _ shape hshape
          have hsecond : second ∈ (baseWords ++ shapeWords).map Prod.fst :=
            List.mem_map.mpr ⟨_, List.mem_append_right _ (mem_of_lookup hshape), rfl⟩
          split at h
          · cases h
          · intro w hw
            rcases List.mem_cons.mp hw with rfl | hw
            · exact hfirst
            · exact List.mem_singleton.mp hw ▸ hsecond

/-- The name of a type is not blank and has no equals sign. -/
theorem chars_of_read {s : String} {type : Ty} (h : read s = .ok type) :
    Text.trim s.toList ≠ [] ∧ '=' ∉ s.toList := by
  obtain ⟨hne, hwords⟩ := mem_of_ofWords h
  constructor
  · intro hnil
    obtain ⟨lead, trail, hs, hlead, htrail⟩ := Text.eq_append_trim s.toList
    have hblank : ∀ c ∈ s.toList, Text.isBlank c = true := by
      rw [hs, hnil, List.nil_append]
      exact fun c hc => (List.mem_append.mp hc).elim (hlead c) (htrail c)
    rw [Text.words_of_blank hblank] at hne
    exact hne rfl
  · intro hmem
    obtain ⟨w, hw, hin⟩ := Text.mem_words hmem (by decide)
    have hlower := hwords _ (List.mem_map_of_mem hw)
    have hall : ∀ word ∈ (baseWords ++ shapeWords).map Prod.fst, '=' ∉ word.toList := by decide
    refine hall _ hlower ?_
    rw [Text.lower, String.toList_ofList, String.toList_ofList]
    exact List.mem_map.mpr ⟨'=', hin, rfl⟩

end Ty

/-! ### Expressions -/

namespace Checked

theorem read_of_ofText {lib : Library} {scope : Scope} {s : String} {e : Checked}
    (h : ofText lib scope s = .ok e) : ∃ t, Tree.read s = .ok t := by
  obtain ⟨t, ht, -⟩ := ofText_eq_ok_iff.mp h
  exact ⟨t, ht⟩

/-- A trimmed text of an expression is not empty and does not begin with an opening bracket. -/
theorem ofText_starts {lib : Library} {scope : Scope} {s : String} {e : Checked}
    (h : ofText lib scope s = .ok e) (htrim : Text.trim s.toList = s.toList) :
    ∃ c rest, s.toList = c :: rest ∧ c ≠ '[' := by
  obtain ⟨t, ht⟩ := read_of_ofText h
  have hstarts := Tree.read_starts ht
  rwa [Text.trimLeft_of_trim htrim] at hstarts

end Checked

/-! ### Lines as they are written -/

/-- The kinds of lines with an expression in them. -/
inductive LineKind
  | declare | ifChain | forCount | forEach | whileLoop | switch | delay | returnWith
  | addItem | addRange | removeItem | removeAt | removeKey
  | compound (op : CompoundOp)
  | assign
  /-- The expression is the line. -/
  | call

namespace LineKind

/-- The line with the name, the type and the expression that are put in it. -/
def line (name type value : String) : LineKind → String
  | declare => "var " ++ name ++ " as " ++ type ++ " = " ++ value
  | ifChain => "if (" ++ value ++ ")"
  | forCount => "for (" ++ name ++ " : " ++ value ++ ")"
  | forEach => "foreach (" ++ name ++ " in " ++ value ++ ")"
  | whileLoop => "while (" ++ value ++ ")"
  | switch => "switch (" ++ value ++ ")"
  | delay => "delay (" ++ value ++ ")"
  | returnWith => "return " ++ value
  | addItem => "additem " ++ name ++ " " ++ value
  | addRange => "addrange " ++ name ++ " " ++ value
  | removeItem => "removeitem " ++ name ++ " " ++ value
  | removeAt => "removeat " ++ name ++ " " ++ value
  | removeKey => "removekey " ++ name ++ " " ++ value
  | compound op => name ++ " " ++ op.symbol ++ " " ++ value
  | assign => name ++ " = " ++ value
  | call => value

/-- The recogniser of the kind. -/
def recogniser : LineKind → List Char → Option LineForm
  | declare => LineForm.declare?
  | ifChain => fun s => (LineForm.keywordParens? "if" s).map .ifChain
  | forCount => LineForm.forCount?
  | forEach => LineForm.forEach?
  | whileLoop => fun s => (LineForm.keywordParens? "while" s).map .whileLoop
  | switch => fun s => (LineForm.keywordParens? "switch" s).map .switch
  | delay => fun s => (LineForm.keywordParens? "delay" s).map .delay
  | returnWith => LineForm.return?
  | addItem => LineForm.addItem?
  | addRange => LineForm.keywordTarget? "addrange" .addRange
  | removeItem => LineForm.keywordTarget? "removeitem" .removeItem
  | removeAt => LineForm.keywordTarget? "removeat" .removeAt
  | removeKey => LineForm.keywordTarget? "removekey" .removeKey
  | compound _ => LineForm.compound?
  | assign => LineForm.assign?
  | call => LineForm.call?

/-- The form of the line. Pieces are told as they are cut out: the blank after a colon or an equals
sign belongs to the expression there. -/
def form (name type value : List Char) : LineKind → LineForm
  | declare => .declare name (Text.trim type) (some (' ' :: value))
  | ifChain => .ifChain value
  | forCount => .forCount name (' ' :: value)
  | forEach => .forEach name value
  | whileLoop => .whileLoop value
  | switch => .switch value
  | delay => .delay value
  | returnWith => .returnWith (some value)
  | addItem => .addItem name none value
  | addRange => .addRange name value
  | removeItem => .removeItem name value
  | removeAt => .removeAt name value
  | removeKey => .removeKey name value
  | compound op => .compound name op (' ' :: value)
  | assign => .assign name (' ' :: value)
  | call => .call

/-- The expression can be a line of the kind: one that stands alone has to be a single call, of a
function whose name is no word of the language. -/
def Fits (value : String) : LineKind → Prop
  | call => ∃ f args, Tree.read value = .ok (.call f args) ∧ f.toList <+: value.toList ∧
      Name.isValid f = true ∧ Name.isReserved f = false
  | _ => True

end LineKind

namespace LineForm

open Text

/-- The recogniser is the first one that takes the line, and gives the form. -/
def FirstBy (r : List Char → Option LineForm) (f : LineForm) (s : List Char) : Prop :=
  ∃ before after, recognisers = before ++ r :: after ∧ (∀ q ∈ before, q s = none) ∧ r s = some f

theorem FirstBy.read? {r : List Char → Option LineForm} {f : LineForm} {s : List Char}
    (h : FirstBy r f s) : read? s = some f := by
  obtain ⟨before, after, hall, hbefore, hr⟩ := h
  rw [LineForm.read?, hall, List.findSome?_append, List.findSome?_eq_none_iff.mpr hbefore]
  simp [hr]

theorem FirstBy.of_take {r : List Char → Option LineForm} {f : LineForm} {s : List Char}
    {after : List (List Char → Option LineForm)} (k : Nat)
    (hall : recognisers = recognisers.take k ++ r :: after)
    (hbefore : (recognisers.take k).findSome? (· s) = none) (hr : r s = some f) :
    FirstBy r f s :=
  ⟨recognisers.take k, after, hall, List.findSome?_eq_none_iff.mp hbefore, hr⟩

theorem beforeClose?_append (s : List Char) : beforeClose? (s ++ [')']) = some s := by
  simp [beforeClose?]

theorem nonempty?_of_ne {s : List Char} (h : s ≠ []) : nonempty? s = some s := by
  simp [nonempty?, h]

/-- The equals sign is found after a text without one, and after the blanks around that text. -/
theorem cutBefore_afterEquals? {type : List Char} (hne : trim type ≠ []) (hequals : '=' ∉ type)
    (value : List Char) : cutBefore afterEquals? (trimLeft (type ++ (" = ".toList ++ value))) =
      (trim type, some (' ' :: value)) := by
  obtain ⟨trail, hleft, htrail⟩ := trimLeft_eq_append type
  rw [trimLeft_append_of_ne_nil (by simp [hleft, hne]), hleft, List.append_assoc]
  refine cutBefore_append hne ?_ ?_
  · rw [afterEquals?, trimLeft_append_of_nil (trimLeft_eq_nil_iff.mpr htrail)]
    rfl
  · -- what is left of the text has a character that is neither blank nor an equals sign
    intro a b hab _ hb
    have hnil := trimLeft_ne_nil_of_trim hab hb
    rw [afterEquals?, trimLeft_append_of_ne_nil hnil]
    obtain ⟨e, r, her⟩ := List.exists_cons_of_ne_nil hnil
    have hmem : e ∈ type := by
      have hmem : e ∈ trimLeft b := by simp [her]
      refine (trimLeft_suffix type).mem ?_
      rw [hleft, hab]
      simp [(trimLeft_suffix b).mem hmem]
    rw [her]
    split
    · rename_i heq
      cases heq
      exact absurd hmem hequals
    · rfl

section Written

variable {name : String} (hname : Name.isValid name = true) {value : List Char}
  (hne : value ≠ []) (hvalue : trimLeft value = value)

include hname in
theorem trimLeft_name (u : List Char) : trimLeft (name.toList ++ u) = name.toList ++ u := by
  obtain ⟨⟨d, ds, hd, halpha⟩, -⟩ := Name.chars_of_isValid hname
  rw [hd]
  exact List.dropWhile_cons_of_neg (by simp [isBlank_of_isAlpha halpha])

include hne hvalue in
theorem operand?_value : operand? (' ' :: value) = some value := by
  have hblanks : afterBlanks? (' ' :: value) = some (trimLeft value) := rfl
  rw [operand?, hblanks, hvalue]
  exact nonempty?_of_ne hne

include hne hvalue in
theorem return?_written :
    return? ("return ".toList ++ value) = some (.returnWith (some value)) := by
  have hkey : keyword? "return".toList ("return ".toList ++ value) = some (' ' :: value) := rfl
  have hoperand := operand?_value hne hvalue
  unfold operand? at hoperand
  simp only [return?, hkey, Option.bind_eq_bind, Option.bind_some, hoperand, Option.map_some]

include hname hne hvalue in
theorem keywordTarget?_written {word : String} (make : List Char → List Char → LineForm)
    {s : List Char} (hs : afterKeyword? word s = some (trimLeft (name.toList ++ ' ' :: value))) :
    keywordTarget? word make s = some (make name.toList value) := by
  rw [trimLeft_name hname] at hs
  simp only [keywordTarget?, hs, Option.bind_eq_bind, Option.bind_some,
    target?_name hname (show isNameChar ' ' = false by decide), operand?_value hne hvalue]
  rfl

include hname hne hvalue in
/-- An item that does not begin with a bracket is not taken for a key. -/
theorem addItem?_written (hbracket : value.head? ≠ some '[') :
    addItem? ("additem ".toList ++ (name.toList ++ ' ' :: value)) =
      some (.addItem name.toList none value) := by
  have hkey : afterKeyword? "additem" ("additem ".toList ++ (name.toList ++ ' ' :: value)) =
      some (trimLeft (name.toList ++ ' ' :: value)) := rfl
  have hnokey : afterKey? operand? (' ' :: value) = none := by
    have htrim : trimLeft (' ' :: value) = trimLeft value := rfl
    unfold afterKey?
    rw [htrim, hvalue]
    split
    · rename_i rest
      exact absurd rfl hbracket
    · rfl
  rw [trimLeft_name hname] at hkey
  simp only [addItem?, hkey, Option.bind_eq_bind, Option.bind_some,
    target?_name hname (show isNameChar ' ' = false by decide), hnokey,
    operand?_value hne hvalue, Option.map_some]

include hname in
theorem forCount?_written :
    forCount? ("for (".toList ++ (name.toList ++ (" : ".toList ++ (value ++ [')'])))) =
      some (.forCount name.toList (' ' :: value)) := by
  have hrest : forRest? (' ' :: ':' :: (' ' :: value ++ [')'])) = some (' ' :: value) := by
    have hcolon : trimLeft (' ' :: ':' :: (' ' :: value ++ [')'])) =
      ':' :: (' ' :: value ++ [')']) := rfl
    simp only [forRest?, hcolon, beforeClose?_append, Option.bind_some]
    rfl
  have hname' := nameBefore?_name hname (show isBlank ' ' = true by decide) hrest
  have hkey : keyword? "for".toList
      ("for (".toList ++ (name.toList ++ (" : ".toList ++ (value ++ [')'])))) =
      some (" (".toList ++ (name.toList ++ (" : ".toList ++ (value ++ [')'])))) := rfl
  have hopen : trimLeft (" (".toList ++ (name.toList ++ (" : ".toList ++ (value ++ [')'])))) =
      '(' :: (name.toList ++ (" : ".toList ++ (value ++ [')']))) := rfl
  simp only [forCount?, hkey, hopen, Option.bind_eq_bind, Option.bind_some, trimLeft_name hname]
  exact congrArg (Option.bind · _) hname'

include hname hne in
theorem forEach?_written :
    forEach? ("foreach (".toList ++ (name.toList ++ (" in ".toList ++ (value ++ [')'])))) =
      some (.forEach name.toList value) := by
  have hrest : forEachRest? (' ' :: 'i' :: 'n' :: ' ' :: (value ++ [')'])) = some value := by
    have hin : forEachRest? (' ' :: 'i' :: 'n' :: ' ' :: (value ++ [')'])) =
      (beforeClose? (value ++ [')'])).bind nonempty? := rfl
    rw [hin, beforeClose?_append, Option.bind_some, nonempty?_of_ne hne]
  have hname' := nameBefore?_name hname (show isBlank ' ' = true by decide) hrest
  have hkey : keyword? "foreach".toList
      ("foreach (".toList ++ (name.toList ++ (" in ".toList ++ (value ++ [')'])))) =
      some (" (".toList ++ (name.toList ++ (" in ".toList ++ (value ++ [')'])))) := rfl
  have hopen : trimLeft (" (".toList ++ (name.toList ++ (" in ".toList ++ (value ++ [')'])))) =
      '(' :: (name.toList ++ (" in ".toList ++ (value ++ [')']))) := rfl
  simp only [forEach?, hkey, hopen, Option.bind_eq_bind, Option.bind_some, trimLeft_name hname]
  exact congrArg (Option.bind · _) hname'

include hname in
theorem declare?_written {type : List Char} (htype : trim type ≠ []) (hequals : '=' ∉ type) :
    declare? ("var ".toList ++
        (name.toList ++ (" as ".toList ++ (type ++ (" = ".toList ++ value))))) =
      some (.declare name.toList (trim type) (some (' ' :: value))) := by
  have hchars : ∀ c ∈ name.toList, (!isBlank c) = true := by
    intro c hc
    simp [(of_isWordChar ((Name.chars_of_isValid hname).2 c hc)).2.2.1]
  have hnonempty : name.toList ≠ [] := by
    obtain ⟨⟨d, ds, hd, -⟩, -⟩ := Name.chars_of_isValid hname
    simp [hd]
  have htypeLeft : trimLeft (type ++ (" = ".toList ++ value)) ≠ [] := by
    obtain ⟨trail, hleft, -⟩ := trimLeft_eq_append type
    rw [trimLeft_append_of_ne_nil (by simp [hleft, htype])]
    simp
  generalize hrest : type ++ (" = ".toList ++ value) = rest at htypeLeft
  have hkey : afterKeyword? "var" ("var ".toList ++ (name.toList ++ (" as ".toList ++ rest))) =
      some (trimLeft (name.toList ++ (" as ".toList ++ rest))) := rfl
  have htake : (name.toList ++ (" as ".toList ++ rest)).takeWhile (!isBlank ·) = name.toList := by
    rw [List.takeWhile_append_of_pos hchars]
    exact List.append_nil _
  have hdrop : (name.toList ++ (" as ".toList ++ rest)).dropWhile (!isBlank ·) =
      " as ".toList ++ rest := by
    rw [List.dropWhile_append_of_pos hchars]
    rfl
  have hblanks : afterBlanks? (" as ".toList ++ rest) = some ("as ".toList ++ rest) := rfl
  have has : afterKeyword? "as" ("as ".toList ++ rest) = some (trimLeft rest) := rfl
  simp only [declare?, hkey, trimLeft_name hname, htake, hdrop, hblanks, has,
    nonempty?_of_ne hnonempty, nonempty?_of_ne htypeLeft, Option.bind_eq_bind, Option.bind_some]
  rw [← hrest, cutBefore_afterEquals? htype hequals]
  rfl

include hname in
theorem compound?_written (op : CompoundOp) :
    compound? (name.toList ++ ' ' :: (op.symbol.toList ++ ' ' :: value)) =
      some (.compound name.toList op (' ' :: value)) := by
  simp only [compound?, target?_name hname (show isNameChar ' ' = false by decide),
    Option.bind_eq_bind, Option.bind_some]
  cases op <;> rfl

include hname in
/-- An assignment is not taken for a compound one. -/
theorem assign?_written (value : List Char) :
    compound? (name.toList ++ ' ' :: '=' :: ' ' :: value) = none ∧
      assign? (name.toList ++ ' ' :: '=' :: ' ' :: value) =
        some (.assign name.toList (' ' :: value)) := by
  simp only [compound?, assign?, target?_name hname (show isNameChar ' ' = false by decide),
    Option.bind_eq_bind, Option.bind_some]
  exact ⟨rfl, rfl⟩

include hname in
/-- A call is taken for no assignment. -/
theorem call?_written {c : Char} (hc : isNameChar c = false) {t inside : List Char}
    (hopen : trimLeft (c :: t) = '(' :: (inside ++ [')'])) :
    compound? (name.toList ++ c :: t) = none ∧ assign? (name.toList ++ c :: t) = none ∧
      call? (name.toList ++ c :: t) = some .call := by
  refine ⟨?_, ?_, ?_⟩
  · simp only [compound?, target?_name hname hc t, Option.bind_eq_bind, Option.bind_some, hopen]
    split
    · rename_i heq
      cases (List.cons.inj heq).1
      rfl
    · rfl
  · simp only [assign?, target?_name hname hc t, Option.bind_eq_bind, Option.bind_some, hopen]
    rfl
  · simp only [call?, word?_name hname hc t, parenthesized?, hopen, beforeClose?_append,
      Option.bind_eq_bind, Option.bind_some]
    rfl

end Written

/-- A text that is a single call is the name of the function, perhaps blanks, and parentheses. -/
theorem exists_name_of_call {value f : String} {args : List Tree}
    (hread : Tree.read value = .ok (.call f args)) (hstarts : f.toList <+: value.toList)
    (hf : Name.isValid f = true) (htrim : trim value.toList = value.toList) :
    ∃ c t inside, value.toList = f.toList ++ c :: t ∧ isNameChar c = false ∧
      trimLeft (c :: t) = '(' :: (inside ++ [')']) := by
  obtain ⟨⟨d, ds, hd, halpha⟩, -⟩ := Name.chars_of_isValid hf
  obtain ⟨u, hu⟩ := hstarts
  rw [hd] at hu
  obtain ⟨rest, inside, blanks, hvalue, hopen, hblanks⟩ := Tree.read_call hread hu.symm halpha
  have hnil : blanks = [] := by
    obtain ⟨lead, hlead⟩ := trimLeft_suffix rest
    by_contra hne
    have hends : trim value.toList = f.toList ++ (lead ++ '(' :: (inside ++ [')'])) ++ blanks := by
      rw [htrim, hvalue, ← hlead, hopen]
      simp
    exact trimLeft_ne_nil_of_trim hends hne (trimLeft_eq_nil_iff.mpr hblanks)
  subst hnil
  cases rest with
  | nil => cases hopen
  | cons c t =>
    refine ⟨c, t, inside, hvalue, ?_, hopen⟩
    by_cases hblank : isBlank c = true
    · exact isNameChar_of_isBlank hblank
    · rw [trimLeft, List.dropWhile_cons_of_neg hblank] at hopen
      cases hopen
      decide

/-- **Every line is recognised as itself.** Take a name that is not reserved, the name of a type and
an expression that is accepted. A line of any kind that is made of them is recognised by the
recogniser of this kind and by none before it, and the pieces that are cut out of it are the name,
the type and the expression. -/
theorem firstBy_written (lib : Library) (scope : Scope) (name type value : String) {ty : Ty}
    {e : Checked} (hname : Name.isValid name = true) (hfree : Name.isReserved name = false)
    (htype : Ty.read type = .ok ty) (htrim : trim value.toList = value.toList)
    (hvalue : Checked.ofText lib scope value = .ok e) (kind : LineKind) (hkind : kind.Fits value) :
    FirstBy kind.recogniser (kind.form name.toList type.toList value.toList)
      (kind.line name type value).toList := by
  have hleft := trimLeft_of_trim htrim
  obtain ⟨c, rest, hstart, hbracket⟩ := Checked.ofText_starts hvalue htrim
  obtain ⟨hne, hequals⟩ := Ty.chars_of_read htype
  have hnonempty : value.toList ≠ [] := by simp [hstart]
  have hspace : isNameChar ' ' = false := by decide
  cases kind
  all_goals
    delta LineKind.line
    simp only [String.toList_append, List.append_assoc]
  case declare => exact .of_take 0 rfl rfl (declare?_written hname hne hequals)
  case ifChain => exact .of_take 1 rfl rfl (congrArg (Option.map _) (beforeClose?_append _))
  case forCount => exact .of_take 2 rfl rfl (forCount?_written hname)
  case forEach => exact .of_take 3 rfl rfl (forEach?_written hname hnonempty)
  case whileLoop => exact .of_take 4 rfl rfl (congrArg (Option.map _) (beforeClose?_append _))
  case switch => exact .of_take 5 rfl rfl (congrArg (Option.map _) (beforeClose?_append _))
  case delay => exact .of_take 6 rfl rfl (congrArg (Option.map _) (beforeClose?_append _))
  case returnWith => exact .of_take 9 rfl rfl (return?_written hnonempty hleft)
  case addItem =>
    refine .of_take 10 rfl rfl (addItem?_written hname hnonempty hleft ?_)
    simpa [hstart] using hbracket
  case addRange => exact .of_take 11 rfl rfl (keywordTarget?_written hname hnonempty hleft _ rfl)
  case removeItem => exact .of_take 12 rfl rfl (keywordTarget?_written hname hnonempty hleft _ rfl)
  case removeAt => exact .of_take 13 rfl rfl (keywordTarget?_written hname hnonempty hleft _ rfl)
  case removeKey => exact .of_take 16 rfl rfl (keywordTarget?_written hname hnonempty hleft _ rfl)
  case compound op =>
    have hrest : target? (trimLeft (' ' :: (op.symbol.toList ++ ' ' :: value.toList))) = none := by
      cases op <;> rfl
    exact ⟨recognisers.take 18, _, rfl, none_of_name hname hfree hspace _ hrest,
      compound?_written hname op⟩
  case assign =>
    obtain ⟨hcompound, hassign⟩ := assign?_written hname value.toList
    refine ⟨recognisers.take 18 ++ [compound?], _, rfl, ?_, hassign⟩
    exact List.forall_mem_append.mpr ⟨none_of_name hname hfree hspace _ rfl,
      List.forall_mem_singleton.mpr hcompound⟩
  case call =>
    obtain ⟨f, args, hcall, hstarts, hf, hffree⟩ := hkind
    obtain ⟨d, t, inside, hsplit, hd, hopen⟩ := exists_name_of_call hcall hstarts hf htrim
    obtain ⟨hcompound, hassign, hcall⟩ := call?_written hf hd hopen
    rw [hsplit]
    refine ⟨recognisers.take 18 ++ [compound?, assign?], _, rfl, ?_, hcall⟩
    refine List.forall_mem_append.mpr ⟨none_of_name hf hffree hd t (by rw [hopen]; rfl), ?_⟩
    exact List.forall_mem_cons.mpr ⟨hcompound, List.forall_mem_singleton.mpr hassign⟩

/-- A variable may be named like the end of a block, and a text may look like an assignment. -/
theorem firstBy_written_endif :
    FirstBy assign? (.assign "endif".toList " upper('a = b')".toList)
      "endif = upper('a = b')".toList ∧
    FirstBy call? .call "upper('a = b')".toList := by
  have hread : Tree.read "upper('a = b')" = .ok (.call "upper" [.text "a = b"]) := by rfl
  exact ⟨firstBy_written .standard .empty "endif" "text" "upper('a = b')" (by decide)
      (by decide) rfl (by decide) rfl .assign trivial,
    firstBy_written .standard .empty "endif" "text" "upper('a = b')" (by decide) (by decide) rfl
      (by decide) rfl .call ⟨_, _, hread, by decide, by decide, by decide⟩⟩

end LineForm

end WorldScript
