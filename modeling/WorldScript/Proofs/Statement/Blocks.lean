import WorldScript.Statement.Form

/-! # Lines that open and close blocks

There are six kinds of blocks, each with its keyword. A line opens a block if its form does, and it
closes a block of some kind if it is `end` and the keyword. Keywords are read from the start of a
line, letter by letter, so two of them stand at the start of one line only if one is the beginning
of the other. Hence no line does two of these things at once:

* `LineForm.isEnd_eq_false`: what is read as a statement closes no block.
* `LineForm.opens?_of_isArmEnd`, `LineForm.opens?_of_isSectionEnd`: lines between the parts of an
  `if` or a `switch` open no block. -/

namespace WorldScript

/-- The kinds of blocks. -/
inductive BlockKind
  | ifChain | forCount | forEach | whileLoop | switch | delay
  deriving DecidableEq, Repr

/-- The keyword of a kind. -/
def BlockKind.word : BlockKind → String
  | ifChain => "if"
  | forCount => "for"
  | forEach => "foreach"
  | whileLoop => "while"
  | switch => "switch"
  | delay => "delay"

theorem BlockKind.word_mem (kind : BlockKind) : kind.word ∈ LineForm.blockWords := by
  cases kind <;> decide

/-- The kind of the block that a line of the form opens. -/
def LineForm.opens? : LineForm → Option BlockKind
  | ifChain _ => some .ifChain
  | forCount _ _ => some .forCount
  | forEach _ _ => some .forEach
  | whileLoop _ => some .whileLoop
  | switch _ => some .switch
  | delay _ => some .delay
  | _ => none

/-! ### Keywords -/

namespace Text

/-- Two keywords at the start of a text: one of them begins with the other. -/
theorem prefix_or_prefix_of_keyword? {v w s r r' : List Char} (hv : keyword? v s = some r)
    (hw : keyword? w s = some r') : v <+: w ∨ w <+: v := by
  induction v generalizing w s with
  | nil => exact Or.inl (List.nil_prefix)
  | cons c v ih =>
    cases w with
    | nil => exact Or.inr (List.nil_prefix)
    | cons d w =>
      cases s with
      | nil => cases hv
      | cons x s =>
        simp only [keyword?, Option.ite_none_right_eq_some] at hv hw
        obtain ⟨rfl, hv⟩ := hv
        obtain ⟨rfl, hw⟩ := hw
        simpa only [List.cons_prefix_cons, true_and] using ih hv hw

/-- No text starts both with the word and with one of the others. -/
def isApart (word : String) (others : List String) : Bool :=
  others.all fun other => !(word.toList.isPrefixOf other.toList) &&
    !(other.toList.isPrefixOf word.toList)

theorem keyword?_eq_none_of_apart (word : String) (others : List String)
    (hapart : isApart word others = true) {other : String} (hother : other ∈ others)
    {s r : List Char} (h : keyword? word.toList s = some r) : keyword? other.toList s = none := by
  rw [Option.eq_none_iff_forall_ne_some]
  intro r' h'
  have hboth := List.all_eq_true.mp hapart other hother
  simp only [Bool.and_eq_true, Bool.not_eq_true', ← Bool.not_eq_true, List.isPrefixOf_iff_prefix]
    at hboth
  rcases prefix_or_prefix_of_keyword? h h' with hprefix | hprefix
  · exact hboth.1 hprefix
  · exact hboth.2 hprefix

theorem exists_of_isKeyword {word : String} {s : List Char} (h : isKeyword word s = true) :
    ∃ r, keyword? word.toList s = some r :=
  ⟨[], eq_of_beq h⟩

end Text

namespace LineForm

open Text

theorem exists_of_isEnd {word : String} {s : List Char} (h : isEnd word s = true) :
    ∃ r, keyword? "end".toList s = some r := by
  unfold isEnd at h
  split at h
  · cases h
  · exact ⟨_, ‹_›⟩

theorem exists_of_keywordParens? {word : String} {s inside : List Char}
    (h : keywordParens? word s = some inside) : ∃ r, keyword? word.toList s = some r := by
  obtain ⟨r, hr, -⟩ := Option.bind_eq_some_iff.mp h
  exact ⟨r, hr⟩

theorem exists_of_elseIf? {s inside : List Char} (h : elseIf? s = some inside) :
    ∃ r, keyword? "else".toList s = some r := by
  obtain ⟨r, hr, -⟩ := Option.bind_eq_some_iff.mp h
  exact ⟨r, hr⟩

/-! ### Lines that end blocks -/

/-- The first words of the forms before the separators, in their order. -/
def firstWords : List String := [
  "var", "if", "for", "foreach", "while", "switch", "delay", "break", "continue", "return",
  "additem", "addrange", "removeitem", "removeat", "clearitems", "setitem", "removekey"]

/-- A line without any of the first words is of none of the forms before the separators. -/
theorem none_of_firstWords {s : List Char}
    (h : ∀ word ∈ firstWords, keyword? word.toList s = none) :
    ∀ q ∈ recognisers.take 17, q s = none := by
  have hafter : ∀ word ∈ firstWords, afterKeyword? word s = none := fun word hword => by
    rw [afterKeyword?, h word hword, Option.bind_none]
  have hparens : ∀ word ∈ firstWords, keywordParens? word s = none := fun word hword => by
    rw [keywordParens?, h word hword, Option.bind_none]
  have hwhole : ∀ word ∈ firstWords, isKeyword word s = false := fun word hword => by
    rw [isKeyword, h word hword]
    rfl
  intro q hq
  simp only [recognisers, List.take_succ_cons, List.take_zero, List.mem_cons, List.not_mem_nil,
    or_false] at hq
  rcases hq with rfl | rfl | rfl | rfl | rfl | rfl | rfl | rfl | rfl | rfl | rfl | rfl | rfl | rfl |
    rfl | rfl | rfl
  · simp [declare?, hafter "var" (by decide)]
  · simp [hparens "if" (by decide)]
  · rw [forCount?, h "for" (by decide)]
    rfl
  · rw [forEach?, h "foreach" (by decide)]
    rfl
  · simp [hparens "while" (by decide)]
  · simp [hparens "switch" (by decide)]
  · simp [hparens "delay" (by decide)]
  · simp [hwhole "break" (by decide)]
  · simp [hwhole "continue" (by decide)]
  · rw [return?, h "return" (by decide)]
    rfl
  · simp [addItem?, hafter "additem" (by decide)]
  · simp [keywordTarget?, hafter "addrange" (by decide)]
  · simp [keywordTarget?, hafter "removeitem" (by decide)]
  · simp [keywordTarget?, hafter "removeat" (by decide)]
  · simp [clearItems?, hafter "clearitems" (by decide)]
  · simp [setItem?, hafter "setitem" (by decide)]
  · simp [keywordTarget?, hafter "removekey" (by decide)]

/-- A line that ends a block is read as a separator. -/
theorem read?_of_isEnd {kind : BlockKind} {s : List Char} (h : isEnd kind.word s = true) :
    read? s = some .separator := by
  obtain ⟨r, hr⟩ := exists_of_isEnd h
  have hnone := none_of_firstWords fun word hword =>
    keyword?_eq_none_of_apart "end" firstWords (by decide) hword hr
  have hseparator : separator? s = some .separator := by
    have hany : blockWords.any (isEnd · s) = true :=
      List.any_eq_true.mpr ⟨kind.word, kind.word_mem, h⟩
    rw [separator?, hany, Bool.or_true, if_pos rfl]
  have hsplit : recognisers =
      recognisers.take 17 ++ separator? :: recognisers.drop 18 := rfl
  have hfirst : (recognisers.take 17).findSome? (· s) = none :=
    List.findSome?_eq_none_iff.mpr hnone
  rw [read?, hsplit, List.findSome?_append, hfirst, Option.none_or, List.findSome?_cons, hseparator]

/-- What is read as a statement closes no block. -/
theorem isEnd_eq_false {s : List Char} {form : LineForm} (h : read? s = some form)
    (hform : form ≠ .separator) (kind : BlockKind) : isEnd kind.word s = false := by
  rw [← Bool.not_eq_true]
  intro hend
  rw [read?_of_isEnd hend, Option.some.injEq] at h
  exact hform h.symm

/-! ### Lines that open blocks -/

/-- A line with a first word that is none of those of statements opens no block. -/
theorem opens?_of_apart (word : String) (hapart : isApart word firstWords = true) {s r : List Char}
    (h : keyword? word.toList s = some r) : (read? s).bind opens? = none := by
  rw [Option.bind_eq_none_iff]
  intro form hform
  have hnone := none_of_firstWords fun other hother =>
    keyword?_eq_none_of_apart word firstWords hapart hother h
  have hfirst : (recognisers.take 17).findSome? (· s) = none :=
    List.findSome?_eq_none_iff.mpr hnone
  rw [read?, ← List.take_append_drop 17 recognisers, List.findSome?_append, hfirst,
    Option.none_or] at hform
  obtain ⟨q, hq, hform⟩ := List.exists_of_findSome?_eq_some hform
  simp only [recognisers, List.drop_succ_cons, List.drop_zero, List.mem_cons, List.not_mem_nil,
    or_false] at hq
  rcases hq with rfl | rfl | rfl | rfl
  · simp only [separator?, Option.ite_none_right_eq_some, Option.some.injEq] at hform
    rw [← hform.2]
    rfl
  · obtain ⟨⟨name, rest⟩, -, hform⟩ := Option.bind_eq_some_iff.mp hform
    simp only at hform
    split at hform
    · obtain ⟨op, -, hform⟩ := Option.bind_eq_some_iff.mp hform
      obtain ⟨value, -, hform⟩ := Option.bind_eq_some_iff.mp hform
      cases hform
      rfl
    · cases hform
  · obtain ⟨⟨name, rest⟩, -, hform⟩ := Option.bind_eq_some_iff.mp hform
    simp only at hform
    split at hform
    · rw [Option.ite_none_left_eq_some] at hform
      cases hform.2
      rfl
    · cases hform
  · obtain ⟨⟨name, rest⟩, -, hform⟩ := Option.bind_eq_some_iff.mp hform
    obtain ⟨inside, -, hform⟩ := Option.bind_eq_some_iff.mp hform
    cases hform
    rfl

/-- A line between two arms opens no block. -/
theorem opens?_of_isArmEnd {s : List Char} (h : isArmEnd s = true) :
    (read? s).bind opens? = none := by
  simp only [isArmEnd, Bool.or_eq_true, Option.isSome_iff_exists] at h
  rcases h with (h | h) | ⟨inside, h⟩
  · obtain ⟨r, hr⟩ := exists_of_isEnd h
    exact opens?_of_apart "end" (by decide) hr
  · obtain ⟨r, hr⟩ := exists_of_isKeyword h
    exact opens?_of_apart "else" (by decide) hr
  · obtain ⟨r, hr⟩ := exists_of_elseIf? h
    exact opens?_of_apart "else" (by decide) hr

/-- A line between two sections opens no block. -/
theorem opens?_of_isSectionEnd {s : List Char} (h : isSectionEnd s = true) :
    (read? s).bind opens? = none := by
  simp only [isSectionEnd, Bool.or_eq_true, Option.isSome_iff_exists] at h
  rcases h with (⟨inside, h⟩ | h) | h
  · obtain ⟨r, hr⟩ := exists_of_keywordParens? h
    exact opens?_of_apart "case" (by decide) hr
  · obtain ⟨r, hr⟩ := exists_of_isKeyword h
    exact opens?_of_apart "default" (by decide) hr
  · obtain ⟨r, hr⟩ := exists_of_isEnd h
    exact opens?_of_apart "end" (by decide) hr

end LineForm

end WorldScript
