import Mathlib.Data.List.TakeWhile
import WorldScript.Proofs.Expr.Reading

/-! # How texts are cut into tokens

`Scans s ts` says that the text is cut into the tokens, without a bound on their number. A token
ends at the latest where a blank or a closing bracket follows, so a text that is cut into tokens is
cut in the same way when it stands before one of them.

* `Scans.append`: the tokens of a text are the first ones of a longer text.
* `Scans.ends_close`: a text whose last token is a closing parenthesis ends with one.
* `Tree.not_read_of_closeBracket`: after a whole expression, no bracket can be closed. -/

namespace WorldScript

namespace Text

variable {c : Char} {s u : List Char}

/-- A blank is a control character, a space, or beyond the ASCII characters. -/
theorem isBlank_range (h : isBlank c = true) : c.toNat ≤ 32 ∨ 133 ≤ c.toNat := by
  simp only [isBlank, Bool.or_eq_true, Bool.and_eq_true, decide_eq_true_eq, beq_iff_eq] at h
  omega

theorem trimLeft_suffix (s : List Char) : trimLeft s <:+ s := List.dropWhile_suffix _

theorem trimLeft_append_of_ne_nil (h : trimLeft s ≠ []) (u : List Char) :
    trimLeft (s ++ u) = trimLeft s ++ u := by
  unfold trimLeft at h ⊢
  rw [List.dropWhile_append, if_neg (by simpa using h)]

theorem trimLeft_append_of_nil (h : trimLeft s = []) (u : List Char) :
    trimLeft (s ++ u) = trimLeft u := by
  unfold trimLeft at h ⊢
  rw [List.dropWhile_append, if_pos (by simpa using h)]

theorem trimLeft_eq_nil_iff : trimLeft s = [] ↔ ∀ c ∈ s, isBlank c = true := by
  simp [trimLeft, List.dropWhile_eq_nil_iff]

/-- Without its blanks at the start, a text is its trimmed form and its blanks at the end. -/
theorem trimLeft_eq_append (s : List Char) :
    ∃ trail, trimLeft s = trim s ++ trail ∧ ∀ c ∈ trail, isBlank c = true := by
  refine ⟨((trimLeft s).reverse.takeWhile isBlank).reverse, ?_, ?_⟩
  · unfold trim trimRight
    rw [← List.reverse_append, List.takeWhile_append_dropWhile, List.reverse_reverse]
  · intro c hc
    exact List.mem_takeWhile_imp (List.mem_reverse.mp hc)

/-- A text is its blanks at the start, its trimmed form, and its blanks at the end. -/
theorem eq_append_trim (s : List Char) : ∃ lead trail, s = lead ++ (trim s ++ trail) ∧
    (∀ c ∈ lead, isBlank c = true) ∧ ∀ c ∈ trail, isBlank c = true := by
  obtain ⟨trail, hright, htrail⟩ := trimLeft_eq_append s
  refine ⟨s.takeWhile isBlank, trail, ?_, fun c hc => List.mem_takeWhile_imp hc, htrail⟩
  rw [← hright]
  exact List.takeWhile_append_dropWhile.symm

/-- No trimmed text ends with a blank. -/
theorem isBlank_getLast?_trim (h : (trim s).getLast? = some c) : isBlank c = false := by
  rw [trim, trimRight, List.getLast?_reverse] at h
  exact head?_dropWhile_not h

/-- A part at the end of a trimmed text is not blank. -/
theorem trimLeft_ne_nil_of_trim {a b : List Char} (h : trim s = a ++ b) (hb : b ≠ []) :
    trimLeft b ≠ [] := by
  intro hnil
  have hlast : (trim s).getLast? = some (b.getLast hb) := by
    rw [h, List.getLast?_append, List.getLast?_eq_some_getLast hb, Option.some_or]
  have hblank := trimLeft_eq_nil_iff.mp hnil _ (List.getLast_mem hb)
  rw [isBlank_getLast?_trim hlast] at hblank
  cases hblank

theorem trimLeft_of_trim (h : trim s = s) : trimLeft s = s := by
  obtain ⟨trail, hright, -⟩ := trimLeft_eq_append s
  refine (trimLeft_suffix s).eq_of_length_le ?_
  rw [hright, h]
  simp

/-- The ASCII letters by their codes. -/
theorem isAlpha_range (h : c.isAlpha = true) :
    65 ≤ c.toNat ∧ c.toNat ≤ 90 ∨ 97 ≤ c.toNat ∧ c.toNat ≤ 122 := by
  delta Char.isAlpha Char.isUpper Char.isLower at h
  simp only [Bool.or_eq_true, Bool.and_eq_true, decide_eq_true_eq, ge_iff_le,
    UInt32.le_iff_toNat_le] at h
  have htoNat : c.val.toNat = c.toNat := rfl
  simp only [htoNat, UInt32.reduceToNat, Char.reduceVal] at h
  exact h

theorem isBlank_of_isAlpha (h : c.isAlpha = true) : isBlank c = false := by
  rw [Bool.eq_false_iff]
  intro hblank
  have hrange := isBlank_range hblank
  have halpha := isAlpha_range h
  omega

end Text

namespace Token

open Text (isBlank trimLeft)

/-- No token goes on into the text: it is empty, or begins with a blank or a closing bracket. -/
def Breaks (u : List Char) : Prop := ∀ d, u.head? = some d → isBlank d = true ∨ d = ']'

/-- A character at which tokens end is neither part of a word or a number nor the second half of an
operator. -/
theorem of_breaks {d : Char} (h : isBlank d = true ∨ d = ']') :
    isWordChar d = false ∧ d.isDigit = false ∧ d ≠ '.' ∧ d ≠ '=' ∧ d ≠ '&' ∧ d ≠ '|' := by
  rcases h with h | rfl
  · have hrange := Text.isBlank_range h
    have hne : ∀ e : Char, 32 < e.toNat → e.toNat < 133 → d ≠ e := by
      rintro e hlow hhigh rfl
      omega
    have hdigit : d.isDigit = false := by
      simp only [Char.isDigit, Bool.and_eq_false_iff, decide_eq_false_iff_not, ge_iff_le,
        UInt32.le_iff_toNat_le]
      have htoNat : d.val.toNat = d.toNat := rfl
      simp only [htoNat, UInt32.reduceToNat, Char.reduceVal]
      omega
    have halpha : d.isAlpha = false := by
      rw [Bool.eq_false_iff]
      intro halpha
      have hletter := Text.isAlpha_range halpha
      omega
    have hunder : d ≠ '_' := hne _ (by decide) (by decide)
    refine ⟨?_, hdigit, hne _ (by decide) (by decide), hne _ (by decide) (by decide),
      hne _ (by decide) (by decide), hne _ (by decide) (by decide)⟩
    simp only [isWordChar, Char.isAlphanum, halpha, hdigit, Bool.or_self, Bool.false_or,
      beq_eq_false_iff_ne]
    exact hunder
  · decide

/-- A text literal goes on with any character but a backslash or its quote. -/
theorem scanText?_cons {quote c : Char} (hc : c ≠ '\\') (s : List Char) :
    scanText? quote (c :: s) =
      if c = quote then some ([], s) else (scanText? quote s).map (Prod.map (c :: ·) id) := by
  rw [scanText?]
  · rfl
  · exact fun h => absurd h hc
  · exact fun _ _ h => absurd h hc

theorem scanText?_append {quote : Char} {s text r : List Char}
    (h : scanText? quote s = some (text, r)) (u : List Char) :
    scanText? quote (s ++ u) = some (text, r ++ u) := by
  fun_induction scanText? quote s generalizing text r with
  | case1 => cases h
  | case2 => cases h
  | case3 c rest ih =>
    obtain ⟨⟨text', r'⟩, hrest, heq⟩ := Option.map_eq_some_iff.mp h
    cases heq
    simp only [List.cons_append, scanText?, ih hrest, Option.map_some]
  | case4 rest hend hescape =>
    have hc : quote ≠ '\\' := by
      intro hc
      cases rest with
      | nil => exact hend hc rfl
      | cons d rest => exact hescape d rest hc rfl
    cases h
    rw [List.cons_append, scanText?_cons hc, if_pos rfl]
  | case5 c rest hend hescape hquote ih =>
    have hc : c ≠ '\\' := by
      intro hc
      cases rest with
      | nil => exact hend hc rfl
      | cons d rest => exact hescape d rest hc rfl
    obtain ⟨⟨text', r'⟩, hrest, heq⟩ := Option.map_eq_some_iff.mp h
    cases heq
    rw [List.cons_append, scanText?_cons hc, if_neg hquote, ih hrest]
    rfl

section Append

variable {u : List Char} (hu : Breaks u)

include hu

theorem takeWhile_append_breaks {p : Char → Bool}
    (hp : ∀ d, isBlank d = true ∨ d = ']' → p d = false) (s : List Char) :
    (s ++ u).takeWhile p = s.takeWhile p ∧ (s ++ u).dropWhile p = s.dropWhile p ++ u := by
  have hstop : u.takeWhile p = [] ∧ u.dropWhile p = u := by
    cases u with
    | nil => exact ⟨rfl, rfl⟩
    | cons d u =>
      have hd := hp d (hu d rfl)
      exact ⟨List.takeWhile_cons_of_neg (by simp [hd]), List.dropWhile_cons_of_neg (by simp [hd])⟩
  induction s with
  | nil => exact hstop
  | cons c s ih =>
    by_cases hc : p c = true
    · simp only [List.cons_append, List.takeWhile_cons_of_pos hc, List.dropWhile_cons_of_pos hc, ih,
        and_self]
    · simp only [List.cons_append, List.takeWhile_cons_of_neg hc, List.dropWhile_cons_of_neg hc,
        and_self]

theorem followedBy_append {c : Char} (hc : ∀ d, isBlank d = true ∨ d = ']' → d ≠ c)
    (long short : Token) (s : List Char) :
    followedBy c long short (s ++ u) =
      ((followedBy c long short s).1, (followedBy c long short s).2 ++ u) := by
  cases s with
  | cons d s =>
    simp only [List.cons_append, followedBy]
    split <;> rfl
  | nil =>
    cases u with
    | nil => rfl
    | cons d u => simp only [List.nil_append, followedBy, if_neg (hc d (hu d rfl))]

theorem scanNumber_append (s : List Char) :
    scanNumber (s ++ u) = ((scanNumber s).1, (scanNumber s).2 ++ u) := by
  have hdigit : ∀ d, isBlank d = true ∨ d = ']' → d.isDigit = false := fun d hd =>
    (of_breaks hd).2.1
  obtain ⟨htake, hdrop⟩ := takeWhile_append_breaks hu hdigit s
  unfold scanNumber
  rw [htake, hdrop]
  rcases s.dropWhile Char.isDigit with _ | ⟨c, _ | ⟨d, r⟩⟩
  · -- the number reaches to the end of the text
    cases u with
    | nil => rfl
    | cons d u =>
      have hd := (of_breaks (hu d rfl)).2.2.1
      simp only [List.nil_append]
      split
      · rename_i heq
        cases heq
        exact absurd rfl hd
      · rfl
  · cases u with
    | nil => rw [List.append_nil, List.append_nil]
    | cons d u =>
      have hd := (of_breaks (hu d rfl)).2.1
      simp only [List.cons_append, List.nil_append]
      split
      · rename_i heq
        cases heq
        rw [if_neg (by simp [hd])]
      · rfl
  · obtain ⟨htake', hdrop'⟩ := takeWhile_append_breaks hu hdigit (d :: r)
    simp only [List.cons_append] at htake' hdrop' ⊢
    by_cases hc : c = '.'
    · subst hc
      simp only
      split
      · rw [htake', hdrop']
      · rfl
    · split
      · rename_i heq
        cases heq
        exact absurd rfl hc
      · split
        · rename_i heq
          cases heq
          exact absurd rfl hc
        · rfl

/-- A token is not changed by what follows, if tokens end there. -/
theorem scanOne_append {c : Char} {s r : List Char} {t : Token} (h : scanOne c s = .ok (t, r)) :
    scanOne c (s ++ u) = .ok (t, r ++ u) := by
  have hword : ∀ d, isBlank d = true ∨ d = ']' → isWordChar d = false := fun d hd =>
    (of_breaks hd).1
  obtain ⟨htake, hdrop⟩ := takeWhile_append_breaks hu hword s
  have hequal := followedBy_append hu (c := '=') fun d hd => (of_breaks hd).2.2.2.1
  have hand := followedBy_append hu (c := '&') fun d hd => (of_breaks hd).2.2.2.2.1
  have hor := followedBy_append hu (c := '|') fun d hd => (of_breaks hd).2.2.2.2.2
  unfold scanOne at h ⊢
  split at h
  · rename_i hdigit
    rw [if_pos hdigit, ← List.cons_append, scanNumber_append hu]
    cases h
    rfl
  · rename_i hdigit
    rw [if_neg hdigit]
    split at h
    · rename_i hquote
      rw [if_pos hquote]
      split at h
      · rename_i htext
        cases h
        rw [scanText?_append htext u]
      · cases h
    · rename_i hquote
      rw [if_neg hquote]
      split at h
      · rename_i hat
        rw [if_pos hat, htake, hdrop]
        split at h
        · cases h
        · cases h
          rfl
      · rename_i hat
        rw [if_neg hat]
        split at h
        · rename_i halpha
          rw [if_pos halpha, htake, hdrop]
          obtain ⟨rfl, rfl⟩ := Prod.mk.inj (Except.ok.inj h)
          rfl
        · rename_i halpha
          rw [if_neg halpha]
          simp only [hequal, hand, hor]
          split at h
          all_goals exact congrArg Except.ok (congrArg (Prod.map id (· ++ u)) (Except.ok.inj h))

end Append

/-- What is left after a token is the end of the text. -/
theorem scanText?_suffix {quote : Char} {s text r : List Char}
    (h : scanText? quote s = some (text, r)) : r <:+ s := by
  fun_induction scanText? quote s generalizing text r with
  | case1 => cases h
  | case2 => cases h
  | case3 c rest ih =>
    obtain ⟨⟨text', r'⟩, hrest, heq⟩ := Option.map_eq_some_iff.mp h
    cases heq
    exact (ih hrest).trans ((List.suffix_cons _ _).trans (List.suffix_cons _ _))
  | case4 rest _ _ =>
    cases h
    exact List.suffix_cons _ _
  | case5 c rest _ _ _ ih =>
    obtain ⟨⟨text', r'⟩, hrest, heq⟩ := Option.map_eq_some_iff.mp h
    cases heq
    exact (ih hrest).trans (List.suffix_cons _ _)

theorem followedBy_suffix (c : Char) (long short : Token) (s : List Char) :
    (followedBy c long short s).2 <:+ s := by
  cases s with
  | nil => exact List.suffix_refl _
  | cons d s =>
    rw [followedBy]
    split
    · exact List.suffix_cons _ _
    · exact List.suffix_refl _

theorem scanNumber_suffix {c : Char} (hc : c.isDigit = true) (s : List Char) :
    (scanNumber (c :: s)).2 <:+ s := by
  have hdrop : (c :: s).dropWhile Char.isDigit = s.dropWhile Char.isDigit :=
    List.dropWhile_cons_of_pos hc
  have hsuffix : s.dropWhile Char.isDigit <:+ s := List.dropWhile_suffix _
  unfold scanNumber
  rw [hdrop]
  split
  · rename_i d rest heq
    rw [heq] at hsuffix
    split
    · have hrest : (d :: rest).dropWhile Char.isDigit <:+ d :: rest := List.dropWhile_suffix _
      exact hrest.trans ((List.suffix_cons _ _).trans hsuffix)
    · exact hsuffix
  · exact hsuffix

theorem scanOne_suffix {c : Char} {s r : List Char} {t : Token} (h : scanOne c s = .ok (t, r)) :
    r <:+ s := by
  unfold scanOne at h
  split at h
  · rename_i hdigit
    cases h
    exact scanNumber_suffix hdigit s
  · split at h
    · split at h
      · rename_i htext
        cases h
        exact scanText?_suffix htext
      · cases h
    · split at h
      · split at h
        · cases h
        · cases h
          exact List.dropWhile_suffix _
      · split at h
        · obtain ⟨-, rfl⟩ := Prod.mk.inj (Except.ok.inj h)
          exact List.dropWhile_suffix _
        · split at h
          case h_6 | h_7 | h_8 | h_9 | h_10 | h_11 =>
            have hr : (followedBy _ _ _ s).2 = r := congrArg Prod.snd (Except.ok.inj h)
            rw [← hr]
            exact followedBy_suffix _ _ _ _
          all_goals
            have hr : s = r := congrArg Prod.snd (Except.ok.inj h)
            exact hr ▸ List.suffix_refl s

/-- A letter starts a word. -/
theorem scanOne_of_isAlpha {c : Char} (h : c.isAlpha = true) (s : List Char) :
    scanOne c s =
      .ok (ofWord (String.ofList (c :: s.takeWhile isWordChar)), s.dropWhile isWordChar) := by
  have hrange := Text.isAlpha_range h
  have hne : ∀ e : Char, e.toNat < 65 → c ≠ e := by
    rintro e he rfl
    omega
  have hdigit : c.isDigit = false := by
    rw [Bool.eq_false_iff]
    intro hdigit
    simp only [Char.isDigit, Bool.and_eq_true, decide_eq_true_eq, ge_iff_le,
      UInt32.le_iff_toNat_le] at hdigit
    have htoNat : c.val.toNat = c.toNat := rfl
    simp only [htoNat, UInt32.reduceToNat, Char.reduceVal] at hdigit
    omega
  unfold scanOne
  simp [hdigit, h, hne '"' (by decide), hne '\'' (by decide), hne '@' (by decide)]

theorem eq_of_ofWord_eq_word {w w' : String} (h : ofWord w = .word w') : w = w' := by
  unfold ofWord at h
  dsimp only at h
  split at h
  · cases h
  · split at h
    · cases h
    · split at h
      · cases h
      · exact Token.word.inj h

/-- The character of a token that is no part of a longer one. -/
def punctuation? : Token → Option Char
  | comma => some ','
  | openParen => some '('
  | closeParen => some ')'
  | openBracket => some '['
  | closeBracket => some ']'
  | _ => none

theorem punctuation?_ofWord (w : String) : punctuation? (ofWord w) = none := by
  unfold ofWord
  dsimp only
  split
  · rfl
  · split
    · rfl
    · split <;> rfl

theorem ofWord_ne_openParen (w : String) : ofWord w ≠ .openParen := by
  intro h
  have hnone := punctuation?_ofWord w
  rw [h] at hnone
  cases hnone

theorem followedBy_fst {c : Char} {long short : Token} {p : Token → Prop} (hlong : p long)
    (hshort : p short) (s : List Char) : p (followedBy c long short s).1 := by
  unfold followedBy
  split
  · split
    · exact hlong
    · exact hshort
  · exact hshort

/-- Only its own character is the token of a punctuation mark. -/
theorem scanOne_punctuation {c d : Char} {s r : List Char} {t : Token}
    (h : scanOne c s = .ok (t, r)) (ht : punctuation? t = some d) : c = d ∧ r = s := by
  unfold scanOne at h
  split at h
  · cases h
    cases ht
  · split at h
    · split at h
      · cases h
        cases ht
      · cases h
    · split at h
      · split at h
        · cases h
        · cases h
          cases ht
      · split at h
        · obtain ⟨rfl, -⟩ := Prod.mk.inj (Except.ok.inj h)
          cases (punctuation?_ofWord _).symm.trans ht
        · split at h
          case h_6 | h_7 | h_8 | h_9 | h_10 | h_11 =>
            have hfst : (followedBy _ _ _ s).1 = t := congrArg Prod.fst (Except.ok.inj h)
            have hnone : punctuation? t = none := by
              rw [← hfst]
              exact followedBy_fst (p := fun t => punctuation? t = none) (by rfl) (by rfl) s
            cases hnone.symm.trans ht
          case h_12 | h_13 | h_14 | h_15 | h_16 =>
            cases h
            cases ht
            exact ⟨rfl, rfl⟩
          all_goals
            cases h
            cases ht

/-! ### Whole texts -/

/-- The text is cut into the tokens. -/
inductive Scans : List Char → List Token → Prop
  | nil {s : List Char} : trimLeft s = [] → Scans s []
  | cons {s rest r : List Char} {c : Char} {t : Token} {ts : List Token} :
    trimLeft s = c :: rest → scanOne c rest = .ok (t, r) → Scans r ts → Scans s (t :: ts)

variable {s u : List Char} {ts us : List Token}

theorem scans_of_scanFirst {n : Nat} (hn : s.length ≤ n) (h : scanFirst n s = .ok ts) :
    Scans s ts := by
  induction n generalizing s ts with
  | zero =>
    cases h
    exact .nil (by rw [List.eq_nil_of_length_eq_zero (Nat.le_zero.mp hn)]; rfl)
  | succ n ih =>
    rw [scanFirst] at h
    split at h
    · rename_i hnil
      cases h
      exact .nil hnil
    · rename_i c rest hcons
      simp only [bind_eq_ok_iff, pure_eq_ok_iff] at h
      obtain ⟨⟨t, r⟩, hone, ts', hrest, rfl⟩ := h
      refine .cons hcons hone (ih ?_ hrest)
      have hlength := (Text.trimLeft_suffix s).length_le
      rw [hcons, List.length_cons] at hlength
      have hr := (scanOne_suffix hone).length_le
      omega

theorem scans_of_scan {s : String} (h : scan s = .ok ts) : Scans s.toList ts :=
  scans_of_scanFirst (Nat.le_refl _) h

/-- Blanks at the start make no difference. -/
theorem Scans.congr (h : Scans s ts) (hsu : trimLeft s = trimLeft u) : Scans u ts := by
  cases h with
  | nil hnil => exact .nil (hsu ▸ hnil)
  | cons hcons hone hrest => exact .cons (hsu ▸ hcons) hone hrest

/-- The tokens of a text are the first ones of a longer text, if tokens end where it ends. -/
theorem Scans.append (h : Scans s ts) (hu : Breaks u) (hlong : Scans (s ++ u) us) :
    ∃ vs, us = ts ++ vs ∧ Scans u vs := by
  induction h generalizing us with
  | nil hnil => exact ⟨us, rfl, hlong.congr (Text.trimLeft_append_of_nil hnil u)⟩
  | @cons s rest r c t ts hcons hone _ ih =>
    have hstart : trimLeft (s ++ u) = c :: (rest ++ u) := by
      rw [Text.trimLeft_append_of_ne_nil (by simp [hcons]), hcons]
      rfl
    cases hlong with
    | nil hnil => cases hstart.symm.trans hnil
    | cons hcons' hone' hrest' =>
      cases hstart.symm.trans hcons'
      cases (scanOne_append hu hone).symm.trans hone'
      obtain ⟨vs, rfl, hvs⟩ := ih hrest'
      exact ⟨vs, rfl, hvs⟩

/-- A text whose last token is a closing parenthesis ends with one and perhaps blanks. -/
theorem Scans.ends_close (h : Scans s (ts ++ [.closeParen])) :
    ∃ start blanks, s = start ++ ')' :: blanks ∧ ∀ c ∈ blanks, Text.isBlank c = true := by
  generalize hall : ts ++ [Token.closeParen] = all at h
  induction h generalizing ts with
  | nil => simp at hall
  | @cons s rest r c t ts' hcons hone hrest ih =>
    have hs : s = s.takeWhile Text.isBlank ++ c :: rest := by
      rw [← hcons]
      exact List.takeWhile_append_dropWhile.symm
    cases ts with
    | nil =>
      cases hall
      obtain ⟨rfl, rfl⟩ := scanOne_punctuation hone rfl
      cases hrest with
      | nil hnil => exact ⟨_, _, hs, Text.trimLeft_eq_nil_iff.mp hnil⟩
    | cons t' ts =>
      cases hall
      obtain ⟨start, blanks, hr, hblanks⟩ := ih rfl
      obtain ⟨used, hused⟩ := scanOne_suffix hone
      refine ⟨s.takeWhile Text.isBlank ++ c :: (used ++ start), blanks, ?_, hblanks⟩
      rw [← hused, hr] at hs
      exact hs.trans (by simp)

end Token

namespace Grammar

/-- The tokens with which phrases begin. -/
def begins : Token → Bool
  | .number _ => true
  | .text _ => true
  | .word _ => true
  | .var _ => true
  | .minus => true
  | .bang => true
  | .openParen => true
  | _ => false

theorem Derives.exists_begins {l : Level} {p : Phrase} (h : Derives l p) :
    ∃ t ts, p.tokens = t :: ts ∧ begins t = true := by
  induction h with
  | stronger _ _ ih => exact ih
  | plain _ ih => exact ih
  | operand _ ih => exact ih
  | binary _ _ _ _ ih =>
    obtain ⟨t, ts, hp, ht⟩ := ih
    exact ⟨t, _, by rw [hp]; rfl, ht⟩
  | index _ _ ih =>
    obtain ⟨t, ts, hp, ht⟩ := ih
    exact ⟨t, _, by rw [hp]; rfl, ht⟩
  | _ => exact ⟨_, _, rfl, rfl⟩

/-- A phrase that stands for a call is one, unless it is put in parentheses. -/
theorem Derives.tokens_of_call {l : Level} {p : Phrase} (h : Derives l p) {w : String}
    {es : List Tree} (hp : p.tree = .call w es) :
    (∃ ts, p.tokens = .word w :: .openParen :: ts ++ [.closeParen]) ∨
      ∃ ts, p.tokens = .openParen :: ts := by
  induction h with
  | stronger _ _ ih => exact ih hp
  | plain _ ih => exact ih hp
  | operand _ ih => exact ih hp
  | call _ =>
    cases hp
    exact Or.inl ⟨_, rfl⟩
  | parens _ _ => exact Or.inr ⟨_, rfl⟩
  | _ => cases hp

end Grammar

namespace Tree

open Token (Scans)

theorem expression_of_ofTokens {ts : List Token} {e : Tree} (h : ofTokens ts = .ok e) :
    expression (operand maxDepth) ts = .ok (e, []) := by
  simp only [ofTokens, bind_eq_ok_iff] at h
  obtain ⟨⟨t, rest⟩, hread, h⟩ := h
  split at h
  · rename_i hrest
    dsimp only at hrest
    subst hrest
    rw [pure_eq_ok_iff] at h
    exact h ▸ hread
  · cases h
  · cases h

theorem derives_of_ofTokens {ts : List Token} {e : Tree} (h : ofTokens ts = .ok e) :
    ∃ d, Grammar.Derives .or ⟨ts, e, d⟩ ∧ d ≤ maxDepth ∧ e.height ≤ maxDepth := by
  obtain ⟨used, d, htokens, hderives, hd, hheight⟩ :=
    Grammar.sound_of_operand (Grammar.operand_sound maxDepth) ts e [] (expression_of_ofTokens h)
  rw [List.append_nil] at htokens
  subst htokens
  exact ⟨d, hderives, hd, hheight⟩

/-- After a whole expression, no bracket can be closed. -/
theorem not_ofTokens_of_closeBracket {ts us : List Token} {e : Tree} (h : ofTokens ts = .ok e)
    (e' : Tree) : ofTokens (ts ++ .closeBracket :: us) ≠ .ok e' := by
  obtain ⟨d, hderives, hd, hheight⟩ := derives_of_ofTokens h
  have hread : expression (operand maxDepth) (ts ++ .closeBracket :: us) =
      .ok (e, .closeBracket :: us) :=
    hderives.taken.read hd hheight (Grammar.stops_of_continues? rfl _ _)
  intro h'
  cases hread.symm.trans (expression_of_ofTokens h')

theorem read_eq_ok {s : String} {e : Tree} (h : read s = .ok e) :
    ∃ ts, Scans s.toList ts ∧ ofTokens ts = .ok e := by
  unfold read at h
  split at h
  · cases h
  · rename_i ts hscan
    exact ⟨ts, Token.scans_of_scan hscan, h⟩

/-- A text that ends before a closing bracket is not an expression if the longer one is. -/
theorem not_read_of_closeBracket {s u : List Char} {e : Tree}
    (h : read (String.ofList (s ++ ']' :: u)) = .ok e) (e' : Tree) :
    read (String.ofList (Text.trim s)) ≠ .ok e' := by
  intro hs
  obtain ⟨ts, hscan, hts⟩ := read_eq_ok hs
  obtain ⟨us, hscan', hus⟩ := read_eq_ok h
  rw [String.toList_ofList] at hscan hscan'
  obtain ⟨lead, trail, hsplit, hlead, htrail⟩ := Text.eq_append_trim s
  have hbreaks : Token.Breaks (trail ++ ']' :: u) := by
    intro d hd
    cases trail with
    | nil => exact Or.inr (Option.some.inj hd).symm
    | cons _ trail =>
      cases hd
      exact Or.inl (htrail d List.mem_cons_self)
  have hlong : Scans (Text.trim s ++ (trail ++ ']' :: u)) us := by
    have hall : s ++ ']' :: u = lead ++ (Text.trim s ++ (trail ++ ']' :: u)) := by
      rw [← List.append_assoc (Text.trim s), ← List.append_assoc lead, ← hsplit]
    refine hscan'.congr ?_
    rw [hall, Text.trimLeft_append_of_nil (Text.trimLeft_eq_nil_iff.mpr hlead)]
  obtain ⟨vs, rfl, hvs⟩ := hscan.append hbreaks hlong
  have hclose := hvs.congr (Text.trimLeft_append_of_nil (Text.trimLeft_eq_nil_iff.mpr htrail) _)
  cases hclose with
  | nil hnil => cases hnil
  | cons hcons hone _ =>
    cases hcons
    cases hone
    exact not_ofTokens_of_closeBracket hts _ hus

/-- The text of an expression is not blank and does not begin with an opening bracket. -/
theorem read_starts {s : String} {e : Tree} (h : read s = .ok e) :
    ∃ c rest, Text.trimLeft s.toList = c :: rest ∧ c ≠ '[' := by
  obtain ⟨ts, hscan, hts⟩ := read_eq_ok h
  obtain ⟨d, hderives, -, -⟩ := derives_of_ofTokens hts
  obtain ⟨t, us, hhead, ht⟩ := hderives.exists_begins
  cases hscan with
  | nil => cases hhead
  | cons hcons hone _ =>
    refine ⟨_, _, hcons, ?_⟩
    rintro rfl
    cases hhead
    cases hone
    cases ht

/-- A text that starts with a letter and is read as a call is a word, blanks, and arguments in
parentheses. -/
theorem read_call {s w : String} {es : List Tree} (h : read s = .ok (.call w es)) {c : Char}
    {r : List Char} (hs : s.toList = c :: r) (hc : c.isAlpha = true) :
    ∃ rest inside blanks, s.toList = w.toList ++ rest ∧
      Text.trimLeft rest = '(' :: (inside ++ ')' :: blanks) ∧
      ∀ c ∈ blanks, Text.isBlank c = true := by
  obtain ⟨ts, hscan, hts⟩ := read_eq_ok h
  obtain ⟨d, hderives, -, -⟩ := derives_of_ofTokens hts
  have hstart : Text.trimLeft s.toList = c :: r := by
    rw [hs]
    exact List.dropWhile_cons_of_neg (by simp [Text.isBlank_of_isAlpha hc])
  cases hscan with
  | nil hnil => cases hstart.symm.trans hnil
  | cons hcons hone hrest =>
    cases hstart.symm.trans hcons
    rw [Token.scanOne_of_isAlpha hc] at hone
    obtain ⟨rfl, rfl⟩ := Prod.mk.inj (Except.ok.inj hone)
    rcases hderives.tokens_of_call rfl with ⟨us, hus⟩ | ⟨us, hus⟩
    · -- the word is the name of the function, and the next token opens the parenthesis
      obtain ⟨hword, hus⟩ := List.cons.inj hus
      have hw := Token.eq_of_ofWord_eq_word hword
      subst hus
      cases hrest with
      | cons hopen hone' hrest' =>
        obtain ⟨rfl, rfl⟩ := Token.scanOne_punctuation hone' rfl
        obtain ⟨inside, blanks, hinside, hblanks⟩ := hrest'.ends_close
        refine ⟨_, inside, blanks, ?_, by rw [hopen, hinside], hblanks⟩
        rw [hs, ← hw, String.toList_ofList, List.cons_append, List.takeWhile_append_dropWhile]
    · exact absurd (List.cons.inj hus).1 (Token.ofWord_ne_openParen _)

end Tree

end WorldScript
