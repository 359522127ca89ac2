import WorldScript.Proofs.Expr.Lexemes
import WorldScript.Proofs.Text.Spelling

/-! # Calls and the texts of their arguments

A phrase that begins with a word and an opening parenthesis begins with a call. It is the call if
the parenthesis is closed by the last token. Otherwise something follows the call, an index or an
operator, and the phrase is no call. A phrase closes every parenthesis that it opens, so counting
parentheses finds the one that ends the arguments.

The text of a phrase can be cut at its punctuation marks, and its parts are cut into the same tokens
when they stand alone. So each argument of a call is an expression in its own right.

* `Token.Scans.cut`: a text is cut at a punctuation mark.
* `Grammar.Derives.begins_call`: what begins as a call.
* `Tree.read_word`: the texts that are calls, and their arguments. -/

namespace WorldScript

namespace Token

open Text (isBlank trimLeft)

/-! ### Texts that end earlier

What is left after a token may be cut short: the token stays the same. -/

section Truncate

variable {a b x : List Char}

theorem span_truncate {p : Char → Bool} (h : (a ++ (b ++ x)).dropWhile p = b ++ x) :
    (a ++ (b ++ x)).takeWhile p = a ∧ (a ++ b).takeWhile p = a ∧ (a ++ b).dropWhile p = b := by
  have hspan : (a ++ (b ++ x)).takeWhile p ++ (a ++ (b ++ x)).dropWhile p = a ++ (b ++ x) :=
    List.takeWhile_append_dropWhile
  rw [h] at hspan
  have htake := List.append_cancel_right hspan
  have ha : ∀ c ∈ a, p c = true := by
    intro c hc
    rw [← htake] at hc
    exact List.mem_takeWhile_imp hc
  have hb : b.takeWhile p = [] ∧ b.dropWhile p = b := by
    cases b with
    | nil => exact ⟨rfl, rfl⟩
    | cons d b =>
      have hd : p d = false := Text.head?_dropWhile_not (congrArg List.head? h)
      exact ⟨List.takeWhile_cons_of_neg (by simp [hd]), List.dropWhile_cons_of_neg (by simp [hd])⟩
  refine ⟨htake, ?_, ?_⟩
  · rw [List.takeWhile_append_of_pos ha, hb.1, List.append_nil]
  · rw [List.dropWhile_append_of_pos ha, hb.2]

theorem scanText?_truncate {quote : Char} {text : List Char}
    (h : scanText? quote (a ++ (b ++ x)) = some (text, b ++ x)) :
    scanText? quote (a ++ b) = some (text, b) := by
  generalize hs : a ++ (b ++ x) = s at h
  fun_induction scanText? quote s generalizing a text with
  | case1 => cases h
  | case2 => cases h
  | case3 c rest ih =>
    obtain ⟨⟨text', r'⟩, hrest, heq⟩ := Option.map_eq_some_iff.mp h
    obtain ⟨rfl, rfl⟩ := Prod.mk.inj heq
    obtain ⟨used, rfl⟩ := scanText?_suffix hrest
    have ha : a = '\\' :: c :: used := List.append_cancel_right hs
    subst ha
    simp only [List.cons_append, scanText?, ih rfl hrest, Option.map_some]
  | case4 rest hend hescape =>
    have hc : quote ≠ '\\' := by
      intro hc
      cases rest with
      | nil => exact hend hc rfl
      | cons d rest => exact hescape d rest hc rfl
    obtain ⟨rfl, rfl⟩ := Prod.mk.inj (Option.some.inj h)
    have ha : a = [quote] := List.append_cancel_right hs
    subst ha
    rw [List.singleton_append, scanText?_cons hc, if_pos rfl]
  | case5 c rest hend hescape hquote ih =>
    have hc : c ≠ '\\' := by
      intro hc
      cases rest with
      | nil => exact hend hc rfl
      | cons d rest => exact hescape d rest hc rfl
    obtain ⟨⟨text', r'⟩, hrest, heq⟩ := Option.map_eq_some_iff.mp h
    obtain ⟨rfl, rfl⟩ := Prod.mk.inj heq
    obtain ⟨used, rfl⟩ := scanText?_suffix hrest
    have ha : a = c :: used := List.append_cancel_right hs
    subst ha
    rw [List.cons_append, scanText?_cons hc, if_neg hquote, ih rfl hrest]
    rfl

theorem followedBy_cons_of_ne {c d : Char} (h : d ≠ c) (long short : Token) (s : List Char) :
    followedBy c long short (d :: s) = (short, d :: s) := if_neg h

theorem followedBy_truncate {c : Char} {long short t : Token}
    (h : followedBy c long short (a ++ (b ++ x)) = (t, b ++ x)) :
    followedBy c long short (a ++ b) = (t, b) := by
  -- the second character is taken, or nothing is
  have hcases : (a = [c] ∧ t = long) ∨ (a = [] ∧ t = short ∧ (b ++ x).head? ≠ some c) := by
    generalize hs : a ++ (b ++ x) = s at h
    unfold followedBy at h
    split at h
    · rename_i d rest
      split at h
      · rename_i hd
        obtain ⟨rfl, rfl⟩ := Prod.mk.inj h
        have ha : a = [d] := List.append_cancel_right hs
        exact .inl ⟨hd ▸ ha, rfl⟩
      · rename_i hd
        obtain ⟨rfl, heq⟩ := Prod.mk.inj h
        have ha : a = [] := List.append_cancel_right (hs.trans heq)
        refine .inr ⟨ha, rfl, ?_⟩
        rw [← heq]
        exact fun hc => hd (Option.some.inj hc)
    · obtain ⟨rfl, heq⟩ := Prod.mk.inj h
      have ha : a = [] := List.append_cancel_right (hs.trans heq)
      exact .inr ⟨ha, rfl, by rw [← heq]; simp⟩
  rcases hcases with ⟨rfl, rfl⟩ | ⟨rfl, rfl, hhead⟩
  · exact if_pos rfl
  · cases b with
    | nil => rfl
    | cons d b => exact followedBy_cons_of_ne (fun hd => hhead (congrArg some hd)) _ _ b

theorem scanNumber_of_fraction {s r : List Char} {d : Char}
    (h : s.dropWhile Char.isDigit = '.' :: d :: r) (hd : d.isDigit = true) :
    scanNumber s = (Number.ofDecimal
      (Number.ofDigits (s.takeWhile Char.isDigit ++ (d :: r).takeWhile Char.isDigit))
      (-((d :: r).takeWhile Char.isDigit).length), (d :: r).dropWhile Char.isDigit) := by
  unfold scanNumber
  rw [h]
  exact if_pos hd

theorem scanNumber_of_whole {s : List Char}
    (h : ∀ d r, s.dropWhile Char.isDigit = '.' :: d :: r → d.isDigit = false) :
    scanNumber s = (Number.ofDecimal (Number.ofDigits (s.takeWhile Char.isDigit)) 0,
      s.dropWhile Char.isDigit) := by
  unfold scanNumber
  split
  · rename_i d r heq
    rw [if_neg (by simp [h d r heq]), heq]
  · rfl

theorem scanNumber_truncate {n : Float} (h : scanNumber (a ++ (b ++ x)) = (n, b ++ x)) :
    scanNumber (a ++ b) = (n, b) := by
  by_cases hfraction : ∃ d r, (a ++ (b ++ x)).dropWhile Char.isDigit = '.' :: d :: r ∧
      d.isDigit = true
  · obtain ⟨d, r, hdrop, hd⟩ := hfraction
    rw [scanNumber_of_fraction hdrop hd] at h
    obtain ⟨hn, hrest⟩ := Prod.mk.inj h
    -- the text is the digits, the point, the digits of the fraction, and what is left
    obtain ⟨used, hused⟩ : ∃ used, r = used ++ (b ++ x) := by
      have hsuffix : (d :: r).dropWhile Char.isDigit <:+ r := by
        rw [List.dropWhile_cons_of_pos hd]
        exact List.dropWhile_suffix _
      rw [hrest] at hsuffix
      obtain ⟨used, hused⟩ := hsuffix
      exact ⟨used, hused.symm⟩
    subst hused
    obtain ⟨htake, htake', hdrop'⟩ :=
      span_truncate (a := d :: used) (b := b) (x := x) (p := Char.isDigit) hrest
    have hwhole : (a ++ (b ++ x)).takeWhile Char.isDigit ++ '.' :: d :: used ++ (b ++ x) =
        a ++ (b ++ x) := by
      rw [List.append_assoc]
      exact (congrArg (_ ++ ·) hdrop.symm).trans List.takeWhile_append_dropWhile
    have ha := List.append_cancel_right hwhole
    generalize hdigits : (a ++ (b ++ x)).takeWhile Char.isDigit = digits at ha hn
    have hall : ∀ c ∈ digits, c.isDigit = true := by
      intro c hc
      rw [← hdigits] at hc
      exact List.mem_takeWhile_imp hc
    have hpoint : (a ++ b).takeWhile Char.isDigit = digits ∧
        (a ++ b).dropWhile Char.isDigit = '.' :: d :: (used ++ b) := by
      rw [← ha, List.append_assoc]
      refine ⟨?_, ?_⟩
      · rw [List.takeWhile_append_of_pos hall, List.cons_append,
          List.takeWhile_cons_of_neg (by decide), List.append_nil]
      · rw [List.dropWhile_append_of_pos hall, List.cons_append,
          List.dropWhile_cons_of_neg (by decide)]
        rfl
    rw [List.cons_append] at htake htake' hdrop'
    rw [scanNumber_of_fraction hpoint.2 hd, hpoint.1, htake', hdrop', ← hn, htake]
  · have hwhole : ∀ d r, (a ++ (b ++ x)).dropWhile Char.isDigit = '.' :: d :: r →
        d.isDigit = false := by
      intro d r heq
      rw [← Bool.not_eq_true]
      exact fun hd => hfraction ⟨d, r, heq, hd⟩
    rw [scanNumber_of_whole hwhole] at h
    obtain ⟨hn, hrest⟩ := Prod.mk.inj h
    obtain ⟨htake, htake', hdrop'⟩ := span_truncate hrest
    have hwhole' : ∀ d r, (a ++ b).dropWhile Char.isDigit = '.' :: d :: r → d.isDigit = false := by
      intro d r heq
      refine hwhole d (r ++ x) ?_
      rw [hrest, ← hdrop', heq]
      rfl
    rw [scanNumber_of_whole hwhole', htake', hdrop', ← hn, htake]

/-- A token that is taken as it is leaves the rest of the text. -/
theorem ok_truncate {t t' : Token}
    (h : (Except.ok (t', a ++ (b ++ x)) : Except ScanError (Token × List Char)) =
      .ok (t, b ++ x)) :
    (Except.ok (t', a ++ b) : Except ScanError (Token × List Char)) = .ok (t, b) := by
  obtain ⟨rfl, heq⟩ := Prod.mk.inj (Except.ok.inj h)
  have ha : a = [] := List.append_cancel_right heq
  subst ha
  rfl

theorem scanOne_truncate {c : Char} {t : Token}
    (h : scanOne c (a ++ (b ++ x)) = .ok (t, b ++ x)) : scanOne c (a ++ b) = .ok (t, b) := by
  unfold scanOne at h ⊢
  split at h
  · rename_i hdigit
    rw [if_pos hdigit]
    obtain ⟨rfl, hrest⟩ := Prod.mk.inj (Except.ok.inj h)
    have hnumber := scanNumber_truncate (a := c :: a) (b := b) (x := x) (Prod.ext rfl hrest)
    rw [List.cons_append] at hnumber
    rw [hnumber]
    rfl
  · rename_i hdigit
    rw [if_neg hdigit]
    split at h
    · rename_i hquote
      rw [if_pos hquote]
      split at h
      · rename_i htext
        obtain ⟨rfl, rfl⟩ := Prod.mk.inj (Except.ok.inj h)
        rw [scanText?_truncate htext]
      · cases h
    · rename_i hquote
      rw [if_neg hquote]
      split at h
      · rename_i hat
        rw [if_pos hat]
        split at h
        · cases h
        · rename_i name hname
          obtain ⟨rfl, hrest⟩ := Prod.mk.inj (Except.ok.inj h)
          obtain ⟨htake, htake', hdrop'⟩ := span_truncate hrest
          rw [htake', hdrop', htake]
          split
          · exact absurd htake hname
          · rfl
      · rename_i hat
        rw [if_neg hat]
        split at h
        · rename_i halpha
          rw [if_pos halpha]
          obtain ⟨rfl, hrest⟩ := Prod.mk.inj (Except.ok.inj h)
          obtain ⟨htake, htake', hdrop'⟩ := span_truncate hrest
          rw [htake', hdrop', htake]
        · rename_i halpha
          rw [if_neg halpha]
          split at h
          case h_6 | h_7 | h_8 | h_9 | h_10 | h_11 =>
            exact congrArg Except.ok (followedBy_truncate (Except.ok.inj h))
          all_goals exact ok_truncate h

end Truncate

/-- A text is cut at a punctuation mark among its tokens. -/
theorem Scans.cut {s : List Char} {ts us : List Token} {t : Token} {d : Char}
    (h : Scans s (ts ++ t :: us)) (ht : punctuation? t = some d) :
    ∃ a b, s = a ++ d :: b ∧ Scans a ts ∧ Scans b us := by
  generalize hall : ts ++ t :: us = all at h
  induction h generalizing ts with
  | nil => simp at hall
  | @cons s rest r c first all' hcons hone hrest ih =>
    have hs : s = s.takeWhile isBlank ++ c :: rest := by
      rw [← hcons]
      exact List.takeWhile_append_dropWhile.symm
    have hblank : trimLeft (s.takeWhile isBlank) = [] :=
      Text.trimLeft_eq_nil_iff.mpr fun e he => List.mem_takeWhile_imp he
    cases ts with
    | nil =>
      obtain ⟨rfl, rfl⟩ := List.cons.inj hall
      obtain ⟨rfl, rfl⟩ := scanOne_punctuation hone ht
      exact ⟨_, _, hs, .nil hblank, hrest⟩
    | cons first' ts =>
      obtain ⟨rfl, hall'⟩ := List.cons.inj hall
      obtain ⟨a, b, rfl, ha, hb⟩ := ih hall'
      obtain ⟨used, rfl⟩ := scanOne_suffix hone
      have hc : isBlank c = false := Text.head?_dropWhile_not (congrArg List.head? hcons)
      have hstart : trimLeft (s.takeWhile isBlank ++ c :: (used ++ a)) = c :: (used ++ a) := by
        rw [Text.trimLeft_append_of_nil hblank]
        exact List.dropWhile_cons_of_neg (by simp [hc])
      refine ⟨s.takeWhile isBlank ++ c :: (used ++ a), b, hs.trans (by simp), ?_, hb⟩
      exact .cons hstart (scanOne_truncate hone) ha

/-! ### Words

The words of lines have a few letters more than those of expressions. -/

theorem isAlpha_of_isLetter {c : Char} (h : Text.isLetter c = true) :
    c.isAlpha = true ∨ c = '\u017f' ∨ c = '\u212a' := by
  by_cases hs : c = '\u017f'
  · exact .inr (.inl hs)
  by_cases hk : c = '\u212a'
  · exact .inr (.inr hk)
  have hlower : ∀ d : Char, d.toLower.isAlpha = d.isAlpha := Text.apply_toLower (by decide)
  rw [Text.isLetter, Text.letter, if_neg hs, if_neg hk] at h
  have halpha : (c.toLower.isUpper || c.toLower.isLower) = true := by rw [h, Bool.or_true]
  exact .inl ((hlower c).symm.trans halpha)

/-- A letter of words that is none of expressions is no token of theirs. -/
theorem scanOne_of_not_isWordChar {c : Char} (hc : Text.isNameChar c = true)
    (hword : isWordChar c = false) (s : List Char) : scanOne c s = .ok (.unknown c, s) := by
  simp only [isWordChar, Char.isAlphanum, Bool.or_eq_false_iff] at hword
  obtain ⟨⟨halpha, hdigit⟩, hunder⟩ := hword
  have hletter : Text.isLetter c = true := by
    simpa only [Text.isNameChar, hdigit, hunder, Bool.or_false] using hc
  rcases isAlpha_of_isLetter hletter with h | rfl | rfl
  · cases halpha.symm.trans h
  · rfl
  · rfl

theorem trimLeft_of_isNameChar {c : Char} (h : Text.isNameChar c = true) (s : List Char) :
    trimLeft (c :: s) = c :: s := by
  refine List.dropWhile_cons_of_neg fun hblank => ?_
  rw [Text.isNameChar_of_isBlank hblank] at h
  cases h

/-- The characters of words that are known to the scanner are those of its own words. -/
theorem Scans.head_not_isNameChar {s : List Char} {ts : List Token}
    (h : Scans (s.dropWhile isWordChar) ts) (hknown : ∀ c, .unknown c ∉ ts) :
    ∀ d, (s.dropWhile isWordChar).head? = some d → Text.isNameChar d = false := by
  intro d hd
  rw [← Bool.not_eq_true]
  intro hname
  have hword : isWordChar d = false := Text.head?_dropWhile_not hd
  obtain ⟨rest, hrest⟩ := List.head?_eq_some_iff.mp hd
  rw [hrest] at h
  cases h with
  | nil hnil => cases (trimLeft_of_isNameChar hname rest).symm.trans hnil
  | cons hcons hone _ =>
    cases (trimLeft_of_isNameChar hname rest).symm.trans hcons
    cases (scanOne_of_not_isWordChar hname hword rest).symm.trans hone
    exact hknown d List.mem_cons_self

/-- A wider class of characters makes no difference if it ends where the narrower one does. -/
theorem span_of_wider {p q : Char → Bool} (hpq : ∀ c, p c = true → q c = true) {s : List Char}
    (hend : ∀ d, (s.dropWhile p).head? = some d → q d = false) :
    s.takeWhile q = s.takeWhile p ∧ s.dropWhile q = s.dropWhile p := by
  induction s with
  | nil => exact ⟨rfl, rfl⟩
  | cons c s ih =>
    by_cases hc : p c = true
    · rw [List.dropWhile_cons_of_pos hc] at hend
      obtain ⟨htake, hdrop⟩ := ih hend
      rw [List.takeWhile_cons_of_pos hc, List.takeWhile_cons_of_pos (hpq c hc),
        List.dropWhile_cons_of_pos hc, List.dropWhile_cons_of_pos (hpq c hc), htake, hdrop]
      exact ⟨rfl, rfl⟩
    · have hq : ¬ q c = true := by
        rw [hend c (by rw [List.dropWhile_cons_of_neg hc]; rfl)]
        decide
      rw [List.takeWhile_cons_of_neg hc, List.takeWhile_cons_of_neg hq,
        List.dropWhile_cons_of_neg hc, List.dropWhile_cons_of_neg hq]
      exact ⟨rfl, rfl⟩

/-- The word at the start of a text is the first of its tokens, if all of them are known. -/
theorem Scans.word {s w r : List Char} {ts : List Token} (h : Scans s ts)
    (hw : Text.word? s = some (w, r)) (hknown : ∀ c, .unknown c ∉ ts) :
    ∃ us, ts = ofWord (String.ofList w) :: us ∧ Scans r us := by
  cases s with
  | nil => cases hw
  | cons c s =>
    simp only [Text.word?, Option.ite_none_right_eq_some, Option.some.injEq, Prod.mk.injEq] at hw
    obtain ⟨hletter, rfl, rfl⟩ := hw
    have hname : Text.isNameChar c = true := by simp [Text.isNameChar, hletter]
    cases h with
    | nil hnil => cases (trimLeft_of_isNameChar hname s).symm.trans hnil
    | @cons _ rest r _ t ts hcons hone hrest =>
      obtain ⟨rfl, rfl⟩ := List.cons.inj ((trimLeft_of_isNameChar hname s).symm.trans hcons)
      rcases isAlpha_of_isLetter hletter with halpha | rfl | rfl
      · rw [scanOne_of_isAlpha halpha] at hone
        obtain ⟨rfl, rfl⟩ := Prod.mk.inj (Except.ok.inj hone)
        have hend := hrest.head_not_isNameChar fun d hd => hknown d (List.mem_cons_of_mem _ hd)
        have hspan := span_of_wider (fun d hd => (Text.of_isWordChar hd).1) hend
        refine ⟨ts, ?_, ?_⟩
        · rw [List.takeWhile_cons_of_pos hname, hspan.1]
        · rwa [List.dropWhile_cons_of_pos hname, hspan.2]
      · cases hone
        exact absurd List.mem_cons_self (hknown _)
      · cases hone
        exact absurd List.mem_cons_self (hknown _)

/-! ### Closing parentheses -/

/-- What follows the parenthesis that closes `depth + 1` open ones. -/
def afterClose : List Token → Nat → Option (List Token)
  | [], _ => none
  | .openParen :: ts, depth => afterClose ts (depth + 1)
  | .closeParen :: ts, 0 => some ts
  | .closeParen :: ts, depth + 1 => afterClose ts depth
  | _ :: ts, depth => afterClose ts depth

def isParen : Token → Bool
  | .openParen => true
  | .closeParen => true
  | _ => false

/-- The count of open parentheses is the same after the tokens, and was never less. -/
def Matched (ts : List Token) : Prop :=
  ∀ rest depth, afterClose (ts ++ rest) depth = afterClose rest depth

theorem matched_nil : Matched [] := fun _ _ => rfl

theorem matched_singleton {t : Token} (h : t.isParen = false) : Matched [t] := by
  intro rest depth
  cases t with
  | openParen => cases h
  | closeParen => cases h
  | _ => rfl

theorem Matched.append {ts us : List Token} (h : Matched ts) (h' : Matched us) :
    Matched (ts ++ us) := by
  intro rest depth
  rw [List.append_assoc, h, h']

theorem Matched.cons {t : Token} {ts : List Token} (h : t.isParen = false) (h' : Matched ts) :
    Matched (t :: ts) :=
  (matched_singleton h).append h'

theorem Matched.parens {ts : List Token} (h : Matched ts) :
    Matched (.openParen :: ts ++ [.closeParen]) := by
  intro rest depth
  rw [List.append_assoc, List.cons_append, afterClose, h]
  rfl

end Token

namespace Grammar

open Token (Matched)

theorem matched_separated {args : List Phrase} (h : ∀ p ∈ args, Matched p.tokens) :
    Matched (Phrase.separated args) := by
  cases args with
  | nil => exact Token.matched_nil
  | cons p args =>
    obtain ⟨hp, hargs⟩ := List.forall_mem_cons.mp h
    rw [Phrase.separated_cons]
    refine hp.append ?_
    clear h hp
    induction args with
    | nil => exact Token.matched_nil
    | cons q args ih =>
      obtain ⟨hq, hrest⟩ := List.forall_mem_cons.mp hargs
      exact (Matched.cons rfl hq).append (ih hrest)

theorem Operator.isParen_eq {l : Level} {t : Token} {op : BinaryOp} (h : Operator l t op) :
    t.isParen = false := by
  cases h <;> rfl

/-- A phrase closes the parentheses that it opens. -/
theorem Derives.matched {l : Level} {p : Phrase} (h : Derives l p) : Matched p.tokens := by
  induction h with
  | stronger _ _ ih => exact ih
  | plain _ ih => exact ih
  | operand _ ih => exact ih
  | binary _ hop _ _ ihp ihq => exact ihp.append (.cons hop.isParen_eq ihq)
  | negate _ ih => exact .cons rfl ih
  | not _ ih => exact .cons rfl ih
  | index _ _ ihp ihkey =>
    exact (ihp.append (.cons rfl ihkey)).append (Token.matched_singleton rfl)
  | call _ ih => exact .cons rfl (matched_separated ih).parens
  | parens _ ih => exact ih.parens
  | _ => exact Token.matched_singleton rfl

theorem mem_separated {t : Token} {args : List Phrase} (h : t ∈ Phrase.separated args) :
    t = .comma ∨ ∃ p ∈ args, t ∈ p.tokens := by
  cases args with
  | nil => cases h
  | cons p args =>
    rw [Phrase.separated_cons, List.mem_append, List.mem_flatMap] at h
    rcases h with h | ⟨q, hq, h⟩
    · exact .inr ⟨p, List.mem_cons_self, h⟩
    · rcases List.mem_cons.mp h with h | h
      · exact .inl h
      · exact .inr ⟨q, List.mem_cons_of_mem p hq, h⟩

theorem Derives.unknown_not_mem {l : Level} {p : Phrase} (h : Derives l p) (c : Char) :
    .unknown c ∉ p.tokens := by
  induction h with
  | stronger _ _ ih => exact ih
  | plain _ ih => exact ih
  | operand _ ih => exact ih
  | @binary _ _ t _ _ _ _ hop _ _ ihp ihq =>
    have ht : .unknown c ≠ t := by
      rintro rfl
      cases hop
    simp [ihp, ihq, ht]
  | call _ ih =>
    intro hmem
    simp only [List.cons_append, List.mem_cons, List.mem_append, List.not_mem_nil, or_false,
      reduceCtorEq, false_or] at hmem
    rcases mem_separated hmem with h | ⟨q, hq, h⟩
    · cases h
    · exact ih q hq h
  | _ => simp_all

/-! ### Phrases that begin as a call -/

/-- Where the second token is no part of what follows, it is one of the first tokens. -/
theorem exists_front {ts us rest : List Token} {t first second : Token} (hne : ts ≠ [])
    (ht : t ≠ second) (h : ts ++ t :: us = first :: second :: rest) :
    ∃ ts', ts = first :: second :: ts' ∧ rest = ts' ++ t :: us := by
  rcases ts with _ | ⟨u, _ | ⟨v, ts'⟩⟩
  · exact absurd rfl hne
  · obtain ⟨-, hrest⟩ := List.cons.inj h
    exact absurd (List.cons.inj hrest).1 ht
  · obtain ⟨hu, hrest⟩ := List.cons.inj h
    obtain ⟨hv, hrest⟩ := List.cons.inj hrest
    exact ⟨ts', by rw [hu, hv], hrest.symm⟩

/-- A phrase that begins with a word and an opening parenthesis begins with a call. It is this call
if nothing follows, and no call otherwise. -/
theorem Derives.begins_call {l : Level} {p : Phrase} (h : Derives l p) {w : String}
    {ts : List Token} (hp : p.tokens = .word w :: .openParen :: ts) :
    ∃ args rest, ts = Phrase.separated args ++ .closeParen :: rest ∧
      (∀ q ∈ args, Derives .or q ∧ q.nesting ≤ p.nesting) ∧
      (rest = [] → p.tree = .call w (args.map Phrase.tree)) ∧
      (rest ≠ [] → ∀ f es, p.tree ≠ .call f es) := by
  induction h generalizing ts with
  | stronger _ _ ih => exact ih hp
  | plain _ ih => exact ih hp
  | operand _ ih =>
    obtain ⟨args, rest, hts, hargs, hcall, hother⟩ := ih hp
    exact ⟨args, rest, hts, fun q hq => ⟨(hargs q hq).1, Nat.le_succ_of_le (hargs q hq).2⟩, hcall,
      hother⟩
  | @binary _ _ t _ p q _ hop hderives _ ih _ =>
    obtain ⟨u, us, hhead, -⟩ := hderives.exists_begins
    have ht : t ≠ .openParen := by
      rintro rfl
      cases hop
    obtain ⟨ts', hp', rfl⟩ := exists_front (by simp [hhead]) ht hp
    obtain ⟨args, rest, rfl, hargs, -⟩ := ih hp'
    refine ⟨args, rest ++ t :: q.tokens, by simp, fun r hr => ?_, by simp, by simp⟩
    exact ⟨(hargs r hr).1, Nat.le_trans (hargs r hr).2 (Nat.le_max_left _ _)⟩
  | @index p key hderives _ ih _ =>
    obtain ⟨u, us, hhead, -⟩ := hderives.exists_begins
    rw [List.append_assoc, List.cons_append] at hp
    obtain ⟨ts', hp', rfl⟩ := exists_front (by simp [hhead]) (by simp) hp
    obtain ⟨args, rest, rfl, hargs, -⟩ := ih hp'
    refine ⟨args, rest ++ .openBracket :: (key.tokens ++ [.closeBracket]), by simp, fun r hr => ?_,
      by simp, by simp⟩
    exact ⟨(hargs r hr).1, Nat.le_trans (hargs r hr).2 (Nat.le_max_left _ _)⟩
  | @call w' args hargs _ =>
    obtain ⟨hword, hrest⟩ := List.cons.inj hp
    obtain ⟨-, hts⟩ := List.cons.inj hrest
    obtain rfl := Token.word.inj hword
    exact ⟨args, [], hts.symm, fun q hq => ⟨hargs q hq, Phrase.nesting_le_nestingAll hq⟩,
      fun _ => rfl, fun h => absurd rfl h⟩
  | _ => cases hp

theorem Phrase.separated_cons_cons (p q : Phrase) (args : List Phrase) :
    separated (p :: q :: args) = p.tokens ++ .comma :: separated (q :: args) := by
  rw [separated_cons, separated_cons, List.flatMap_cons, List.cons_append]

end Grammar

/-! ### Arguments -/

/-- The text is a list of texts, with commas between them, that stand for the items. A blank text
lists nothing. -/
inductive Text.Lists {α : Type} (R : List Char → α → Prop) : List Char → List α → Prop
  | none {s : List Char} : (∀ c ∈ s, isBlank c = true) → Lists R s []
  | one {s : List Char} {a : α} : R s a → Lists R s [a]
  | more {s u : List Char} {a b : α} {items : List α} : R s a → Lists R u (b :: items) →
    Lists R (s ++ ',' :: u) (a :: b :: items)

/-- The items may be looked at in another way. -/
theorem Text.Lists.map {α β : Type} {R : List Char → α → Prop} {R' : List Char → β → Prop}
    {f : α → β} {s : List Char} {items : List α} (h : Lists R s items)
    (hR : ∀ u, ∀ a ∈ items, R u a → R' u (f a)) : Lists R' s (items.map f) := by
  induction h with
  | none hs => exact .none hs
  | one ha => exact .one (hR _ _ List.mem_cons_self ha)
  | more ha _ ih =>
    exact .more (hR _ _ List.mem_cons_self ha)
      (ih fun u a hmem => hR u a (List.mem_cons_of_mem _ hmem))

/-- The text of arguments is a list of the texts of each of them. -/
theorem Token.Scans.lists {s : List Char} {args : List Grammar.Phrase}
    (h : Scans s (Grammar.Phrase.separated args)) :
    Text.Lists (fun u p => Scans u p.tokens) s args := by
  induction args generalizing s with
  | nil =>
    cases h with
    | nil hnil => exact .none (Text.trimLeft_eq_nil_iff.mp hnil)
  | cons p args ih =>
    cases args with
    | nil =>
      rw [Grammar.Phrase.separated_cons, List.flatMap_nil, List.append_nil] at h
      exact .one h
    | cons q args =>
      rw [Grammar.Phrase.separated_cons_cons] at h
      obtain ⟨a, b, rfl, ha, hb⟩ := h.cut rfl
      exact .more ha (ih hb)

/-- Before a closing parenthesis at the end of a text stand the tokens before the last one. -/
theorem Token.Scans.of_close {s : List Char} {ts : List Token}
    (h : Scans (s ++ [')']) (ts ++ [.closeParen])) : Scans s ts := by
  obtain ⟨a, b, hs, ha, hb⟩ := h.cut rfl
  cases hb with
  | nil hnil =>
    -- only blanks can follow the last token, and the text ends with the parenthesis
    rcases List.eq_nil_or_concat' b with rfl | ⟨b, c, rfl⟩
    · rwa [List.append_cancel_right hs]
    · have hlast := congrArg List.getLast? hs
      rw [List.getLast?_concat, ← List.cons_append, ← List.append_assoc,
        List.getLast?_concat] at hlast
      obtain rfl := Option.some.inj hlast
      have hblank := Text.trimLeft_eq_nil_iff.mp hnil ')' (by simp)
      cases hblank

namespace Tree

open Grammar (Derives)
open Token (Scans)

theorem read_of_scans {s : List Char} {ts : List Token} {e : Tree} {d : Nat} (hs : Scans s ts)
    (h : Derives .or ⟨ts, e, d⟩) (hd : d ≤ maxDepth) (hheight : e.height ≤ maxDepth) :
    read (String.ofList s) = .ok e := by
  have hscan : Token.scan (String.ofList s) = .ok ts := by
    rw [Token.scan, String.toList_ofList]
    exact Token.scanFirst_of_scans hs (Nat.le_refl _)
  have hread : expression (operand maxDepth) (ts ++ []) = .ok (e, []) :=
    h.taken.read hd hheight (Grammar.stops_nil _)
  rw [List.append_nil] at hread
  simp only [read, hscan, ofTokens, hread, bind, Except.bind]
  rfl

theorem ofWord_eq {w : String} (hbegins : Grammar.begins (Token.ofWord w) = true) :
    Text.lower w = "not" ∧ Token.ofWord w = .bang ∨
      Text.lower w ≠ "not" ∧ Token.ofWord w = .word w := by
  unfold Token.ofWord at hbegins ⊢
  dsimp only at hbegins ⊢
  split at hbegins
  · cases hbegins
  · rename_i hand
    split at hbegins
    · cases hbegins
    · rename_i hor
      rw [if_neg hand, if_neg hor]
      by_cases hnot : Text.lower w = "not"
      · exact .inl ⟨hnot, if_pos hnot⟩
      · exact .inr ⟨hnot, if_neg hnot⟩

/-- **Texts that begin as a call.** Let a text be a word and a text in parentheses that reaches up
to the end. If it is an expression, then it is a call exactly if the word is not the operator `not`
and the first parenthesis is closed by the last one. The call is that of the word, and the text in
parentheses lists its arguments. -/
theorem read_word {s : String} {t : Tree} {w r inside : List Char} (hread : read s = .ok t)
    (hw : Text.word? s.toList = some (w, r)) (hr : Text.trimLeft r = '(' :: (inside ++ [')'])) :
    ∃ ts, Token.scan (String.ofList (inside ++ [')'])) = .ok ts ∧
      ((∃ f es, t = .call f es) ↔
        Text.lower (String.ofList w) ≠ "not" ∧ Token.afterClose ts 0 = some []) ∧
      ∀ f es, t = .call f es → f = String.ofList w ∧
        Text.Lists (fun u e => read (String.ofList u) = .ok e) inside es := by
  obtain ⟨tokens, hscan, htokens⟩ := read_eq_ok hread
  obtain ⟨d, hderives, hd, hheight⟩ := derives_of_ofTokens htokens
  obtain ⟨us, rfl, hus⟩ := hscan.word hw hderives.unknown_not_mem
  obtain ⟨ts, rfl, hts⟩ : ∃ ts, us = .openParen :: ts ∧ Scans (inside ++ [')']) ts := by
    cases hus with
    | nil hnil => cases hr.symm.trans hnil
    | cons hcons hone hrest =>
      cases hr.symm.trans hcons
      cases hone
      exact ⟨_, rfl, hrest⟩
  have hinside : Token.scan (String.ofList (inside ++ [')'])) = .ok ts := by
    rw [Token.scan, String.toList_ofList]
    exact Token.scanFirst_of_scans hts (Nat.le_refl _)
  refine ⟨ts, hinside, ?_⟩
  obtain ⟨first, _, hfirst, hbegins⟩ := hderives.exists_begins
  obtain ⟨rfl, -⟩ := List.cons.inj hfirst
  rcases ofWord_eq hbegins with ⟨hnot, hword⟩ | ⟨hnot, hword⟩
  · -- what begins with `not` is no call
    have hno : ∀ f es, t ≠ .call f es := by
      intro f es hcall
      rw [hword] at hderives
      rcases hderives.tokens_of_call hcall with ⟨_, htokens'⟩ | ⟨_, htokens'⟩
      · cases (List.cons.inj htokens').1
      · cases (List.cons.inj htokens').1
    refine ⟨⟨?_, fun h => absurd hnot h.1⟩, fun f es hcall => absurd hcall (hno f es)⟩
    rintro ⟨f, es, hcall⟩
    exact absurd hcall (hno f es)
  · rw [hword] at hderives
    obtain ⟨args, rest, rfl, hargs, hcall, hother⟩ := hderives.begins_call rfl
    have hclose : Token.afterClose (Grammar.Phrase.separated args ++ .closeParen :: rest) 0 =
        some rest := Grammar.matched_separated (fun q hq => (hargs q hq).1.matched) _ 0
    have hrest : (∃ f es, t = .call f es) ↔ rest = [] := by
      constructor
      · rintro ⟨f, es, ht⟩
        by_contra hne
        exact hother hne f es ht
      · intro hnil
        exact ⟨_, _, hcall hnil⟩
    refine ⟨?_, ?_⟩
    · rw [hrest, hclose, Option.some.injEq]
      exact (and_iff_right hnot).symm
    · intro f es ht
      obtain rfl := hrest.mp ⟨f, es, ht⟩
      have ht' : t = .call (String.ofList w) (args.map Grammar.Phrase.tree) := hcall rfl
      subst ht'
      obtain ⟨rfl, rfl⟩ := Tree.call.inj ht
      refine ⟨rfl, hts.of_close.lists.map ?_⟩
      intro u q hq hu
      obtain ⟨hq', hnesting⟩ := hargs q hq
      refine read_of_scans hu hq' (Nat.le_trans hnesting hd) ?_
      have hmem := Grammar.height_le_heightAll (List.mem_map_of_mem (f := Grammar.Phrase.tree) hq)
      rw [height] at hheight
      omega

end Tree

end WorldScript
