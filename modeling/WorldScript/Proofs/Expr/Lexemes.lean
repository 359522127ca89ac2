import WorldScript.Proofs.Expr.Spelling

/-! # Texts that are written from lexemes

A *lexeme* is one way to write a token: digits, a word, a name after `@`, the sign of an operator,
or a text between quotes. Lexemes that are written one after the other, with blanks between them,
are cut again into their tokens. Inside of quotes every character can be written, since a backslash
takes away the meaning of the quote and of the backslash itself, so each text has a literal.

* `Lexeme.Written`: some lexemes with blanks around them.
* `Lexeme.scanOne_spelling`: a lexeme is one token.
* `Lexeme.Written.scans`: lexemes with blanks around them are cut into their tokens.
* `Lexeme.scan_written`: the same for the scanner, and for the expression of a text literal. -/

namespace WorldScript

open Text (isBlank trimLeft)

/-! ### Lexemes -/

/-- How a token is written that is always written in the same way. -/
def Token.sign? : Token → Option (List Char)
  | plus => some ['+']
  | minus => some ['-']
  | star => some ['*']
  | slash => some ['/']
  | percent => some ['%']
  | bang => some ['!']
  | equal => some ['=', '=']
  | unequal => some ['!', '=']
  | less => some ['<']
  | atMost => some ['<', '=']
  | greater => some ['>']
  | atLeast => some ['>', '=']
  | and => some ['&', '&']
  | or => some ['|', '|']
  | comma => some [',']
  | openParen => some ['(']
  | closeParen => some [')']
  | openBracket => some ['[']
  | closeBracket => some [']']
  | _ => none

/-- Digits, and perhaps a point and more digits after it. -/
structure Numeral where
  whole : List Char
  fraction : List Char
  nonempty : whole ≠ []
  digits : ∀ c ∈ whole ++ fraction, c.isDigit = true

namespace Numeral

/-- The text of a numeral, without a point if there is no fraction. -/
def spelling (n : Numeral) : List Char :=
  if n.fraction = [] then n.whole else n.whole ++ '.' :: n.fraction

/-- The number that is nearest to the decimal. -/
def value (n : Numeral) : Float :=
  Number.ofDecimal (Number.ofDigits (n.whole ++ n.fraction)) (-n.fraction.length)

end Numeral

/-- One way to write a token. -/
inductive Lexeme
  | numeral (n : Numeral)
  /-- A letter, and more letters, digits and underscores. -/
  | word (first : Char) (rest : List Char) (hfirst : first.isAlpha = true)
    (hrest : ∀ c ∈ rest, Token.isWordChar c = true)
  /-- A name after `@`. -/
  | var (name : List Char) (hname : name ≠ []) (hchars : ∀ c ∈ name, Token.isWordChar c = true)
  /-- An operator or a punctuation mark. -/
  | sign (t : Token) (spelling : List Char) (hsign : t.sign? = some spelling)
  /-- A text between quotes of one sort. -/
  | text (quote : Char) (hquote : quote = '"' ∨ quote = '\'') (s : String)

namespace Lexeme

/-- A text inside of quotes: the quote and the backslash stand after a backslash. -/
def escaped (quote : Char) (s : List Char) : List Char :=
  s.flatMap fun c => if c = quote ∨ c = '\\' then ['\\', c] else [c]

/-- The text of a lexeme. -/
def spelling : Lexeme → List Char
  | numeral n => n.spelling
  | word first rest _ _ => first :: rest
  | var name _ _ => '@' :: name
  | sign _ spelling _ => spelling
  | text quote _ s => quote :: (escaped quote s.toList ++ [quote])

/-- The token of a lexeme. Three words are operators, in whatever case they are written. -/
def token : Lexeme → Token
  | numeral n => .number n.value
  | word first rest _ _ =>
    match Text.lower (String.ofList (first :: rest)) with
    | "and" => .and
    | "or" => .or
    | "not" => .bang
    | _ => .word (String.ofList (first :: rest))
  | var name _ _ => .var (String.ofList name)
  | sign t _ _ => t
  | text _ _ s => .text s

/-- The text consists of the lexemes, with blanks before and after them. Between two lexemes there
is at least one blank. -/
inductive Written : List Lexeme → List Char → Prop
  | nil {s : List Char} : (∀ c ∈ s, isBlank c = true) → Written [] s
  | cons {l : Lexeme} {rest : List Lexeme} {before s : List Char} :
    (∀ c ∈ before, isBlank c = true) → Written rest s →
    (rest ≠ [] → ∃ c after, s = c :: after ∧ isBlank c = true) →
    Written (l :: rest) (before ++ (l.spelling ++ s))

/-! ### Single lexemes -/

theorem not_isBlank_of_isDigit {c : Char} (h : c.isDigit = true) : isBlank c = false := by
  rw [Bool.eq_false_iff]
  intro hblank
  have hdigit := (Token.of_breaks (Or.inl hblank)).2.1
  rw [h] at hdigit
  cases hdigit

theorem takeWhile_all {p : Char → Bool} {s : List Char} (h : ∀ c ∈ s, p c = true) :
    s.takeWhile p = s ∧ s.dropWhile p = [] :=
  ⟨List.takeWhile_eq_self_iff.mpr h, List.dropWhile_eq_nil_iff.mpr h⟩

theorem exists_digit (n : Numeral) : ∃ c rest, n.spelling = c :: rest ∧ c.isDigit = true := by
  obtain ⟨c, whole, hwhole⟩ := List.exists_cons_of_ne_nil n.nonempty
  have hc := n.digits c (by simp [hwhole])
  unfold Numeral.spelling
  split
  · exact ⟨c, whole, hwhole, hc⟩
  · exact ⟨c, whole ++ '.' :: n.fraction, by rw [hwhole]; rfl, hc⟩

theorem isDigit_of_mem_fraction (n : Numeral) : ∀ c ∈ n.fraction, c.isDigit = true := fun c hc =>
  n.digits c (List.mem_append_right _ hc)

/-- Where the whole part of a numeral ends. -/
theorem span_spelling (n : Numeral) :
    n.spelling.takeWhile Char.isDigit = n.whole ∧
      n.spelling.dropWhile Char.isDigit = if n.fraction = [] then [] else '.' :: n.fraction := by
  have hwhole : ∀ c ∈ n.whole, c.isDigit = true := fun c hc =>
    n.digits c (List.mem_append_left _ hc)
  obtain ⟨htake, hdrop⟩ := takeWhile_all hwhole
  unfold Numeral.spelling
  by_cases hfraction : n.fraction = []
  · rw [if_pos hfraction, if_pos hfraction]
    exact ⟨htake, hdrop⟩
  · have hpoint : ('.' :: n.fraction).takeWhile Char.isDigit = [] ∧
        ('.' :: n.fraction).dropWhile Char.isDigit = '.' :: n.fraction := ⟨rfl, rfl⟩
    rw [if_neg hfraction, if_neg hfraction, List.takeWhile_append_of_pos hwhole,
      List.dropWhile_append_of_pos hwhole, hpoint.1, hpoint.2, List.append_nil]
    exact ⟨rfl, rfl⟩

/-- A numeral is scanned as a whole. -/
theorem scanNumber_spelling (n : Numeral) : Token.scanNumber n.spelling = (n.value, []) := by
  obtain ⟨htake, hdrop⟩ := span_spelling n
  have hdigits := isDigit_of_mem_fraction n
  unfold Token.scanNumber Numeral.value
  rw [htake, hdrop]
  cases hfraction : n.fraction with
  | nil =>
    rw [if_pos rfl, List.append_nil]
    rfl
  | cons d fraction =>
    rw [hfraction] at hdigits
    obtain ⟨hall, hnone⟩ := takeWhile_all hdigits
    rw [if_neg (by simp)]
    simp only [hdigits d List.mem_cons_self, if_true, hall, hnone]

/-- A numeral is none of the words for numbers. -/
theorem lower_spelling_ne (n : Numeral) {d : Char} (hd : d.isDigit = false) (r : List Char) :
    String.ofList (n.spelling.map Char.toLower) ≠ String.ofList (d :: r) := by
  obtain ⟨c, rest, hspelling, hc⟩ := exists_digit n
  intro heq
  have hlists := String.ofList_injective heq
  rw [hspelling, List.map_cons] at hlists
  rw [← Token.isDigit_toLower, (List.cons.inj hlists).1, hd] at hc
  cases hc

theorem readUnsigned?_spelling (n : Numeral) :
    Number.readUnsigned? n.spelling = some n.value := by
  obtain ⟨htake, hdrop⟩ := span_spelling n
  obtain ⟨hall, hnone⟩ := takeWhile_all (isDigit_of_mem_fraction n)
  have hinf := lower_spelling_ne n (d := 'i') (by decide)
  have hnan := lower_spelling_ne n (d := 'n') (by decide) ['a', 'n']
  unfold Number.readUnsigned? Numeral.value
  simp only [htake, hdrop]
  rw [if_neg (by simpa using ⟨hinf ['n', 'f'], hinf ['n', 'f', 'i', 'n', 'i', 't', 'y']⟩),
    if_neg hnan]
  by_cases hfraction : n.fraction = []
  · simp [hfraction, n.nonempty, Number.exponent?]
  · simp [hfraction, n.nonempty, hall, hnone, Number.exponent?]

/-- The number that a numeral writes. It has no sign, since it begins with a digit. -/
theorem read?_spelling (n : Numeral) : Number.read? n.spelling = some n.value := by
  obtain ⟨c, rest, hspelling, hc⟩ := exists_digit n
  have hminus : c ≠ '-' := by rintro rfl; cases hc
  have hplus : c ≠ '+' := by rintro rfl; cases hc
  rw [← readUnsigned?_spelling n, hspelling]
  unfold Number.read?
  split
  · rename_i heq
    exact absurd (List.cons.inj heq).1 hminus
  · rename_i heq
    exact absurd (List.cons.inj heq).1 hplus
  · rfl

/-- An escaped text is read back up to its closing quote. -/
theorem scanText?_escaped {quote : Char} (hquote : quote = '"' ∨ quote = '\'')
    (s rest : List Char) :
    Token.scanText? quote (escaped quote s ++ quote :: rest) = some (s, rest) := by
  have hbackslash : quote ≠ '\\' := by rcases hquote with rfl | rfl <;> decide
  have hunescape : ∀ c, c = quote ∨ c = '\\' → Token.unescape c = c := by
    rintro c (rfl | rfl)
    · rcases hquote with rfl | rfl <;> decide
    · decide
  induction s with
  | nil =>
    rw [escaped, List.flatMap_nil, List.nil_append, Token.scanText?_cons hbackslash, if_pos rfl]
  | cons c s ih =>
    have hcons : escaped quote (c :: s) =
        (if c = quote ∨ c = '\\' then ['\\', c] else [c]) ++ escaped quote s := List.flatMap_cons
    rw [hcons]
    by_cases hc : c = quote ∨ c = '\\'
    · rw [if_pos hc]
      simp only [List.cons_append, List.nil_append, Token.scanText?, ih, Option.map_some,
        hunescape c hc]
    · rw [not_or] at hc
      rw [if_neg (not_or.mpr hc), List.append_assoc, List.singleton_append,
        Token.scanText?_cons hc.2, if_neg hc.1, ih]
      rfl

theorem token_word (first : Char) (rest : List Char) (hfirst : first.isAlpha = true)
    (hrest : ∀ c ∈ rest, Token.isWordChar c = true) :
    (word first rest hfirst hrest).token = Token.ofWord (String.ofList (first :: rest)) := by
  unfold token Token.ofWord
  dsimp only
  split
  · rename_i heq
    rw [if_pos heq]
  · rename_i heq
    rw [heq]
    rfl
  · rename_i heq
    rw [heq]
    rfl
  · rename_i hand hor hnot
    rw [if_neg hand, if_neg hor, if_neg hnot]

/-- **A lexeme is one token.** -/
theorem scanOne_spelling (l : Lexeme) : ∃ c rest, l.spelling = c :: rest ∧ isBlank c = false ∧
    Token.scanOne c rest = .ok (l.token, []) := by
  cases l with
  | numeral n =>
    obtain ⟨c, rest, hspelling, hc⟩ := exists_digit n
    refine ⟨c, rest, hspelling, not_isBlank_of_isDigit hc, ?_⟩
    rw [Token.scanOne_of_isDigit hc, ← hspelling, scanNumber_spelling]
    rfl
  | word first rest hfirst hrest =>
    obtain ⟨hall, hnone⟩ := takeWhile_all hrest
    refine ⟨first, rest, rfl, Text.isBlank_of_isAlpha hfirst, ?_⟩
    rw [Token.scanOne_of_isAlpha hfirst, hall, hnone, token_word]
  | var name hname hchars =>
    obtain ⟨hall, hnone⟩ := takeWhile_all hchars
    refine ⟨'@', name, rfl, by decide, ?_⟩
    rw [Token.scanOne_at, hall, hnone, if_neg hname]
    rfl
  | sign t spelling hsign =>
    cases t <;> cases hsign <;> exact ⟨_, _, rfl, by decide, rfl⟩
  | text quote hquote s =>
    have hscan := scanText?_escaped hquote s.toList []
    have hisQuote : Text.isQuote quote = true := by rcases hquote with rfl | rfl <;> decide
    refine ⟨quote, _, rfl, ?_, ?_⟩
    · rcases hquote with rfl | rfl <;> decide
    · rw [Token.scanOne_of_isQuote hisQuote, hscan, Option.elim_some, String.ofList_toList]
      rfl

/-! ### Whole texts -/

namespace Written

variable {ls : List Lexeme} {s : List Char}

/-- No token goes on beyond the end of a lexeme. -/
theorem breaks (h : Written ls s)
    (hblank : ls ≠ [] → ∃ c after, s = c :: after ∧ isBlank c = true) : Token.Breaks s := by
  intro d hd
  left
  by_cases hls : ls = []
  · subst hls
    cases h with
    | nil hall => exact hall d (List.mem_of_mem_head? hd)
  · obtain ⟨c, after, rfl, hc⟩ := hblank hls
    obtain rfl : c = d := Option.some.inj hd
    exact hc

/-- **Lexemes are cut into their tokens.** -/
theorem scans (h : Written ls s) : Token.Scans s (ls.map token) := by
  induction h with
  | nil hall => exact .nil (Text.trimLeft_eq_nil_iff.mpr hall)
  | @cons l rest before s hbefore hrest hgap ih =>
    obtain ⟨c, r, hspelling, hc, hone⟩ := l.scanOne_spelling
    have htrim : trimLeft (before ++ (l.spelling ++ s)) = c :: (r ++ s) := by
      rw [Text.trimLeft_append_of_nil (Text.trimLeft_eq_nil_iff.mpr hbefore), hspelling]
      exact List.dropWhile_cons_of_neg (by simp [hc])
    exact .cons htrim (Token.scanOne_append (hrest.breaks hgap) hone) ih

theorem singleton (l : Lexeme) : Written [l] l.spelling := by
  have h : Written [l] ([] ++ (l.spelling ++ [])) := .cons (by simp) (.nil (by simp)) (by simp)
  simpa using h

end Written

end Lexeme

/-- A text that is cut into tokens is scanned in no more steps than it has characters. -/
theorem Token.scanFirst_of_scans {n : Nat} {s : List Char} {ts : List Token} (h : Scans s ts)
    (hn : s.length ≤ n) : scanFirst n s = .ok ts := by
  induction h generalizing n with
  | @nil s hnil =>
    cases n with
    | zero => rfl
    | succ n => simp only [scanFirst, hnil]
  | @cons s rest r c t ts hcons hone _ ih =>
    have hlength := (Text.trimLeft_suffix s).length_le
    have hshorter := (scanOne_suffix hone).length_le
    rw [hcons, List.length_cons] at hlength
    obtain ⟨less, rfl⟩ : ∃ less, n = less + 1 := ⟨n - 1, by omega⟩
    simp only [scanFirst, hcons, bind_eq_ok_iff, pure_eq_ok_iff]
    exact ⟨(t, r), hone, ts, ih (by omega), rfl⟩

/-- **The scanner undoes writing.** Lexemes that are written with blanks between them, and perhaps
around them, are scanned as their tokens. The number of a numeral is the one that its text writes. A
text between quotes is an expression, whatever the text and the quotes are, so there is a literal
for every text. -/
theorem Lexeme.scan_written :
    (∀ ls s, Written ls s → Token.scan (String.ofList s) = .ok (ls.map token)) ∧
    (∀ n : Numeral, Number.read? n.spelling = some n.value) ∧
    ∀ quote (hquote : quote = '"' ∨ quote = '\'') s,
      Tree.read (String.ofList (text quote hquote s).spelling) = .ok (.text s) := by
  have hscan : ∀ ls s, Written ls s → Token.scan (String.ofList s) = .ok (ls.map token) := by
    intro ls s h
    unfold Token.scan
    rw [String.toList_ofList]
    exact Token.scanFirst_of_scans h.scans (Nat.le_refl _)
  refine ⟨hscan, read?_spelling, ?_⟩
  intro quote hquote s
  unfold Tree.read
  rw [hscan _ _ (Written.singleton _)]
  rfl

/-- The text `1.5 <= @x aNd 'it\'s'`, piece by piece. -/
def Lexeme.sample : List Lexeme :=
  [numeral ⟨['1'], ['5'], by decide, List.all_eq_true.mp rfl⟩, sign .atMost ['<', '='] rfl,
    var ['x'] (by decide) (List.all_eq_true.mp rfl),
    word 'a' ['N', 'd'] rfl (List.all_eq_true.mp rfl), text '\'' (Or.inr rfl) "it's"]

theorem Lexeme.scan_written_sample :
    Token.scan "\t1.5\u2003<= @x\naNd  'it\\'s' " =
      .ok [.number (Number.ofDecimal 15 (-1)), .atMost, .var "x", .and, .text "it's"] := by
  have hgap : ∀ {c : Char} {s : List Char}, isBlank c = true →
      ∃ d after, c :: s = d :: after ∧ isBlank d = true := fun h => ⟨_, _, rfl, h⟩
  have hend : Written [] [' '] := .nil (List.all_eq_true.mp rfl)
  have hwritten : Written sample "\t1.5\u2003<= @x\naNd  'it\\'s' ".toList :=
    @Written.cons _ _ ['\t'] _ (List.all_eq_true.mp rfl)
      (@Written.cons _ _ ['\u2003'] _ (List.all_eq_true.mp rfl)
        (@Written.cons _ _ [' '] _ (List.all_eq_true.mp rfl)
          (@Written.cons _ _ ['\n'] _ (List.all_eq_true.mp rfl)
            (@Written.cons _ _ [' ', ' '] _ (List.all_eq_true.mp rfl) hend fun _ => hgap rfl)
            fun _ => hgap rfl)
          fun _ => hgap rfl)
        fun _ => hgap rfl)
      fun _ => hgap rfl
  exact scan_written.1 sample _ hwritten

end WorldScript
