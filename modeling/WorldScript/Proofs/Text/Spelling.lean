import WorldScript.Proofs.Space.Alike
import WorldScript.Proofs.Statement.Forms

/-! # Other spellings of a text

A line may be spelled in several ways: outside of its text literals the case of letters is of no
importance. Literals are found by a scan from the start of the line. A quote opens a literal, the
same quote closes it, and a backslash inside takes away the meaning of the character after it.

A line is cut into pieces, and a piece may begin where the scan is inside of a literal. So two
spellings are compared from any place of the scan on, and it may also be left open that the place is
known at all.

* `Quoting`: the places of the scan, and `Quoting.fold` with the letters outside in lower case.
* `Respelled p b s t`: the texts are alike, and if `b` they are spellings of each other from `p` on.
* `Respects f`: what `f` finds in two spellings of a text are spellings of each other. -/

namespace WorldScript.Text

/-! ### Places -/

/-- A place in a line: outside of text literals, inside of one, or there after a backslash. -/
inductive Quoting
  | outside
  | inside (quote : Char)
  | escaped (quote : Char)
  deriving DecidableEq

/-- The character opens a text literal. -/
def isQuote (c : Char) : Bool := c = '"' || c = '\''

namespace Quoting

/-- The place after a character. -/
def next : Quoting → Char → Quoting
  | outside, c => if isQuote c then inside c else outside
  | inside quote, c =>
    if c = '\\' then escaped quote else if c = quote then outside else inside quote
  | escaped quote, _ => inside quote

/-- The place after a text. -/
def after (p : Quoting) (s : List Char) : Quoting := s.foldl next p

/-- The character in the spelling to which all others are compared. -/
def foldChar : Quoting → Char → Char
  | outside, c => c.toLower
  | _, c => c

/-- The text with its letters outside of text literals in lower case. -/
def fold (p : Quoting) : List Char → List Char
  | [] => []
  | c :: s => p.foldChar c :: (p.next c).fold s

end Quoting

/-- A text that ends outside of literals, if it begins there. -/
def Closed (s : List Char) : Prop := Quoting.outside.after s = .outside

/-! ### Letters -/

/-- What does not distinguish the capital letters from the small ones is not changed by the case. -/
theorem apply_toLower {α : Type} {f : Char → α}
    (h : ∀ n < 26, f (Char.ofNat (97 + n)) = f (Char.ofNat (65 + n))) (c : Char) :
    f c.toLower = f c := by
  by_cases hc : 65 ≤ c.toNat ∧ c.toNat ≤ 90
  · have hlower : ∀ n < 26, (Char.ofNat (65 + n)).toLower = Char.ofNat (97 + n) := by decide
    have hn : c.toNat - 65 < 26 := by omega
    have hchar : c = Char.ofNat (65 + (c.toNat - 65)) := by
      rw [Nat.add_sub_cancel' hc.1, Char.ofNat_toNat]
    rw [hchar, hlower _ hn, h _ hn]
  · have hsame : c.toLower = c := by
      delta Char.toLower
      rw [dif_neg]
      rintro ⟨hlow, hhigh⟩
      exact hc ⟨hlow, hhigh⟩
    rw [hsame]

theorem isBlank_toLower : ∀ c : Char, isBlank c.toLower = isBlank c :=
  apply_toLower (by decide)

theorem letter_toLower : ∀ c : Char, letter c.toLower = letter c :=
  apply_toLower (by decide)

theorem isQuote_toLower : ∀ c : Char, isQuote c.toLower = isQuote c :=
  apply_toLower (by decide)

theorem isNameChar_toLower : ∀ c : Char, isNameChar c.toLower = isNameChar c :=
  apply_toLower (by decide)

/-- Both cases of a letter are word characters. -/
theorem isWordChar_toLower : ∀ c : Char, isWordChar c.toLower = isWordChar c := by
  refine apply_toLower fun n hn => ?_
  have hletters : ∀ n < 26, ∀ m ∈ [97, 65], Token.isWordChar (Char.ofNat (m + n)) = true := by
    decide
  rw [(of_isWordChar (hletters n hn 97 (by simp))).2.1,
    (of_isWordChar (hletters n hn 65 (by simp))).2.1]

/-- What is no letter has no case. -/
theorem eq_iff_of_toLower {c d x : Char} (h : c.toLower = d.toLower) (hx : x.isAlpha = false) :
    c = x ↔ d = x := by
  have hletters : ∀ n < 26, (Char.ofNat (97 + n)).isAlpha = true ∧
      (Char.ofNat (65 + n)).isAlpha = true := by decide
  have hne : ∀ y : Char, y.isAlpha = true → (y == x) = false := by
    rintro y hy
    refine beq_false_of_ne ?_
    rintro rfl
    rw [hy] at hx
    cases hx
  have hbeq : ∀ y : Char, (y.toLower == x) = (y == x) := by
    refine apply_toLower (f := (· == x)) fun n hn => ?_
    rw [hne _ (hletters n hn).1, hne _ (hletters n hn).2]
  rw [← beq_iff_eq, ← beq_iff_eq (a := d), ← hbeq c, ← hbeq d, h]

namespace Quoting

theorem next_foldChar (p : Quoting) (c : Char) : p.next (p.foldChar c) = p.next c := by
  cases p with
  | outside =>
    simp only [next, foldChar, isQuote_toLower]
    split
    · rename_i hquote
      simp only [isQuote, Bool.or_eq_true, decide_eq_true_eq] at hquote
      rcases hquote with rfl | rfl <;> rfl
    · rfl
  | inside quote => rfl
  | escaped quote => rfl

theorem toLower_foldChar (p : Quoting) (c : Char) : (p.foldChar c).toLower = c.toLower := by
  cases p with
  | outside => exact toLower_toLower c
  | inside quote => rfl
  | escaped quote => rfl

theorem after_cons (p : Quoting) (c : Char) (s : List Char) :
    p.after (c :: s) = (p.next c).after s := rfl

theorem after_append (p : Quoting) (s t : List Char) : p.after (s ++ t) = (p.after s).after t :=
  List.foldl_append

theorem take_fold (p : Quoting) (s : List Char) (n : Nat) :
    (p.fold s).take n = p.fold (s.take n) := by
  induction s generalizing p n with
  | nil => simp [fold]
  | cons c s ih =>
    cases n with
    | zero => rfl
    | succ n => rw [fold, List.take_succ_cons, List.take_succ_cons, fold, ih]

theorem length_fold (p : Quoting) (s : List Char) : (p.fold s).length = s.length := by
  induction s generalizing p with
  | nil => rfl
  | cons c s ih => rw [fold, List.length_cons, List.length_cons, ih]

theorem map_toLower_fold (p : Quoting) (s : List Char) :
    (p.fold s).map Char.toLower = s.map Char.toLower := by
  induction s generalizing p with
  | nil => rfl
  | cons c s ih => rw [fold, List.map_cons, List.map_cons, toLower_foldChar, ih]

end Quoting

open Quoting (outside)

theorem isQuote_eq_false {f : Char → Bool} (hdouble : f '"' = false) (hsingle : f '\'' = false)
    {c : Char} (h : f c = true) : isQuote c = false := by
  rw [Bool.eq_false_iff]
  intro hquote
  simp only [isQuote, Bool.or_eq_true, decide_eq_true_eq] at hquote
  rcases hquote with rfl | rfl
  · rw [hdouble] at h
    cases h
  · rw [hsingle] at h
    cases h

theorem Quoting.next_outside {c : Char} (h : isQuote c = false) : outside.next c = outside := by
  simp [next, h]

/-- A text of characters that are no quotes has no literals. -/
theorem Closed.of_forall {f : Char → Bool} (hdouble : f '"' = false) (hsingle : f '\'' = false)
    {s : List Char} (h : ∀ c ∈ s, f c = true) : Closed s := by
  induction s with
  | nil => rfl
  | cons c s ih =>
    have hquote := isQuote_eq_false hdouble hsingle (h c List.mem_cons_self)
    rw [Closed, Quoting.after_cons, Quoting.next_outside hquote]
    exact ih fun d hd => h d (List.mem_cons_of_mem c hd)

/-! ### Spellings -/

/-- The texts are the same, the case of letters apart. -/
def Alike (s t : List Char) : Prop := s.map Char.toLower = t.map Char.toLower

/-- The texts are alike. If the place is known for which `b` stands, they differ at most in letters
that a scan from there finds outside of literals. -/
structure Respelled (p : Quoting) (b : Prop) (s t : List Char) : Prop where
  alike : Alike s t
  same : b → p.fold s = p.fold t

namespace Respelled

variable {p : Quoting} {b : Prop} {c d : Char} {s t : List Char}

theorem of_fold (h : p.fold s = p.fold t) : Respelled p b s t := by
  refine ⟨?_, fun _ => h⟩
  have hlower := congrArg (List.map Char.toLower) h
  rwa [Quoting.map_toLower_fold, Quoting.map_toLower_fold] at hlower

theorem imp {b' : Prop} (h : Respelled p b s t) (hb : b' → b) : Respelled p b' s t :=
  ⟨h.alike, fun hb' => h.same (hb hb')⟩

/-- Outside of literals, if that is where the place is. -/
theorem toOutside (h : Respelled p b s t) : Respelled outside (b ∧ p = outside) s t := by
  refine ⟨h.alike, ?_⟩
  rintro ⟨hb, rfl⟩
  exact h.same hb

theorem nil : Respelled p b [] [] := ⟨rfl, fun _ => rfl⟩

theorem cons_iff : Respelled p b (c :: s) (d :: t) ↔
    c.toLower = d.toLower ∧ (b → p.foldChar c = p.foldChar d) ∧ Respelled (p.next c) b s t := by
  have hnext : p.foldChar c = p.foldChar d → p.next c = p.next d := fun h => by
    rw [← p.next_foldChar c, h, p.next_foldChar]
  constructor
  · intro h
    obtain ⟨hcd, hst⟩ := List.cons.inj h.alike
    refine ⟨hcd, fun hb => (List.cons.inj (h.same hb)).1, hst, fun hb => ?_⟩
    obtain ⟨hfirst, hrest⟩ := List.cons.inj (h.same hb)
    rw [hrest, hnext hfirst]
  · rintro ⟨hcd, hfold, hst⟩
    refine ⟨congrArg₂ List.cons hcd hst.alike, fun hb => ?_⟩
    rw [Quoting.fold, Quoting.fold, hfold hb, hst.same hb, hnext (hfold hb)]

theorem eq_nil (h : Respelled p b [] t) : t = [] := by
  have halike := h.alike
  cases t with
  | nil => rfl
  | cons d t => cases halike

theorem exists_cons (h : Respelled p b (c :: s) t) : ∃ d u, t = d :: u ∧
    c.toLower = d.toLower ∧ (b → p.foldChar c = p.foldChar d) ∧ Respelled (p.next c) b s u := by
  have halike := h.alike
  cases t with
  | nil => cases halike
  | cons d u => exact ⟨d, u, rfl, cons_iff.mp h⟩

theorem take (h : Respelled p b s t) (n : Nat) : Respelled p b (s.take n) (t.take n) := by
  refine ⟨?_, fun hb => ?_⟩
  · rw [Alike, List.map_take, List.map_take, h.alike]
  · rw [← Quoting.take_fold, ← Quoting.take_fold, h.same hb]

theorem length_eq (h : Respelled p b s t) : s.length = t.length := by
  have hlength := congrArg List.length h.alike
  rwa [List.length_map, List.length_map] at hlength

/-- A run of characters that does not depend on the case, and what follows it. -/
theorem span {f : Char → Bool} (hf : ∀ c, f c.toLower = f c) (h : Respelled p b s t) :
    Respelled p b (s.takeWhile f) (t.takeWhile f) ∧
      Respelled (p.after (s.takeWhile f)) b (s.dropWhile f) (t.dropWhile f) := by
  induction s generalizing p t with
  | nil =>
    obtain rfl := h.eq_nil
    exact ⟨nil, nil⟩
  | cons c s ih =>
    obtain ⟨d, u, rfl, hcd, hfold, hrest⟩ := h.exists_cons
    have hfd : f d = f c := by rw [← hf d, ← hcd, hf c]
    rw [List.takeWhile_cons, List.takeWhile_cons, List.dropWhile_cons, List.dropWhile_cons, hfd]
    split
    · obtain ⟨hrun, hafter⟩ := ih hrest
      exact ⟨cons_iff.mpr ⟨hcd, hfold, hrun⟩, hafter⟩
    · exact ⟨nil, h⟩

end Respelled

theorem Alike.dropWhile {f : Char → Bool} (hf : ∀ c, f c.toLower = f c) {s t : List Char}
    (h : Alike s t) : Alike (s.dropWhile f) (t.dropWhile f) := by
  have hcomp : f ∘ Char.toLower = f := funext hf
  have hdrop : ∀ u : List Char,
      (u.dropWhile f).map Char.toLower = (u.map Char.toLower).dropWhile f := by
    intro u
    rw [List.dropWhile_map, hcomp]
  rw [Alike, hdrop, hdrop, h]

/-! ### Pieces of lines -/

section Pieces

variable {b : Prop} {s t : List Char}

theorem Respelled.trimLeft (h : Respelled outside b s t) :
    Respelled outside b (trimLeft s) (trimLeft t) := by
  have hclosed : Closed (s.takeWhile isBlank) :=
    .of_forall rfl rfl fun c hc => List.mem_takeWhile_imp hc
  have hdrop := (h.span isBlank_toLower).2
  rwa [hclosed] at hdrop

theorem Respelled.trimRight {p : Quoting} (h : Respelled p b s t) :
    Respelled p b (trimRight s) (trimRight t) := by
  have htake : ∀ u, Text.trimRight u = u.take (Text.trimRight u).length := fun u => by
    have hsuffix : u.reverse.dropWhile isBlank <:+ u.reverse := List.dropWhile_suffix _
    exact List.prefix_iff_eq_take.mp (List.reverse_suffix.mp (by
      rw [Text.trimRight, List.reverse_reverse]
      exact hsuffix))
  have hreverse : Alike s.reverse t.reverse := by
    rw [Alike, List.map_reverse, List.map_reverse, h.alike]
  have hlength : (Text.trimRight s).length = (Text.trimRight t).length := by
    have halike := congrArg List.length (hreverse.dropWhile isBlank_toLower)
    simpa only [Text.trimRight, List.length_reverse, List.length_map] using halike
  rw [htake s, htake t, hlength]
  exact h.take _

theorem Respelled.trim (h : Respelled outside b s t) : Respelled outside b (trim s) (trim t) :=
  h.trimLeft.trimRight

/-- What is found in two spellings of a text are two spellings. -/
def Respects (f : List Char → Option (List Char)) : Prop :=
  ∀ ⦃b : Prop⦄ ⦃s t : List Char⦄, Respelled outside b s t →
    Option.Rel (Respelled outside b) (f s) (f t)

theorem rel_bind {α β γ δ : Type} {R : α → β → Prop} {S : γ → δ → Prop} {x : Option α}
    {y : Option β} {f : α → Option γ} {g : β → Option δ} (h : Option.Rel R x y)
    (hfg : ∀ a b, R a b → Option.Rel S (f a) (g b)) : Option.Rel S (x.bind f) (y.bind g) := by
  cases h with
  | none => exact .none
  | some hab => exact hfg _ _ hab

theorem Respects.bind {f g : List Char → Option (List Char)} (hf : Respects f) (hg : Respects g) :
    Respects fun s => (f s).bind g :=
  fun _ _ _ h => rel_bind (hf h) fun _ _ hr => hg hr

/-- The rest of a text that starts with the character. -/
def after? (x : Char) : List Char → Option (List Char)
  | [] => none
  | c :: s => if c = x then some s else none

theorem respects_after? {x : Char} (hx : x.isAlpha = false) (hquote : isQuote x = false) :
    Respects (after? x) := by
  intro b s t h
  cases s with
  | nil =>
    obtain rfl := h.eq_nil
    exact .none
  | cons c s =>
    obtain ⟨d, u, rfl, hcd, -, hrest⟩ := h.exists_cons
    simp only [after?, ← eq_iff_of_toLower hcd hx]
    split
    · subst x
      exact .some (Quoting.next_outside hquote ▸ hrest)
    · exact .none

/-- What follows a word. If there is no quote in the word, that begins outside of literals. -/
theorem Respelled.keyword? (word : List Char) (h : Respelled outside b s t) :
    Option.Rel (Respelled outside (b ∧ word.all (!isQuote ·) = true))
      (keyword? word s) (keyword? word t) := by
  induction word generalizing b s t with
  | nil => exact .some (h.imp And.left)
  | cons w ws ih =>
    cases s with
    | nil =>
      obtain rfl := h.eq_nil
      exact .none
    | cons c s =>
      obtain ⟨d, u, rfl, hcd, -, hrest⟩ := h.exists_cons
      have hletter : letter d = letter c := by rw [← letter_toLower, ← hcd, letter_toLower]
      simp only [Text.keyword?, hletter]
      split
      · rename_i hw
        refine rel_imp (ih hrest.toOutside) fun _ _ hr => hr.imp ?_
        rintro ⟨hb, hall⟩
        rw [List.all_cons, Bool.and_eq_true] at hall
        have hquote : isQuote c = false :=
          isQuote_eq_false (f := fun c => !isQuote (letter c)) rfl rfl (hw ▸ hall.1)
        exact ⟨⟨hb, Quoting.next_outside hquote⟩, hall.2⟩
      · exact .none

/-- No keyword has a quote in it. -/
theorem respects_keyword? {word : List Char} (hword : word.all (!isQuote ·) = true) :
    Respects (keyword? word) :=
  fun _ _ _ h => rel_imp (h.keyword? word) fun _ _ hr => hr.imp fun hb => ⟨hb, hword⟩

theorem Respelled.isKeyword (word : String) (h : Respelled outside b s t) :
    isKeyword word t = isKeyword word s := by
  unfold Text.isKeyword
  rcases rel_eq_or (h.keyword? word.toList) with ⟨hs, ht⟩ | ⟨r, r', hs, ht, hr⟩
  · rw [hs, ht]
  · have hempty : r = [] ↔ r' = [] := by
      rw [← List.length_eq_zero_iff, hr.length_eq, List.length_eq_zero_iff]
    rw [hs, ht, Bool.eq_iff_iff, beq_iff_eq, beq_iff_eq, Option.some.injEq, Option.some.injEq,
      hempty]

/-- Two spellings of a name, and of what follows it. -/
def NamesAlike (b : Prop) (x y : List Char × List Char) : Prop :=
  Alike x.1 y.1 ∧ Respelled outside (b ∧ Closed x.1) x.2 y.2

/-- A word has no quotes, so it is known where the text after it begins. -/
theorem Respelled.word? (h : Respelled outside b s t) :
    Option.Rel (fun x y => Alike x.1 y.1 ∧ Respelled outside b x.2 y.2) (word? s) (word? t) := by
  cases s with
  | nil =>
    obtain rfl := h.eq_nil
    exact .none
  | cons c s =>
    obtain ⟨d, u, rfl, hcd, -, -⟩ := h.exists_cons
    have hletter : isLetter d = isLetter c := by
      rw [isLetter, isLetter, ← letter_toLower d, ← hcd, letter_toLower]
    simp only [Text.word?, hletter]
    split
    · have hclosed : Closed ((c :: s).takeWhile isNameChar) :=
        .of_forall rfl rfl fun c hc => List.mem_takeWhile_imp hc
      obtain ⟨hname, hrest⟩ := h.span isNameChar_toLower
      rw [hclosed] at hrest
      exact .some ⟨hname.alike, hrest⟩
    · exact .none

end Pieces

end WorldScript.Text
