/-! # Letters without case

Names are compared after lower-casing the ASCII letters. Keywords are recognised more widely: the
long s and the Kelvin sign are case variants of `s` and `k`, so they are read as those letters in a
keyword and count as letters in a word. -/

namespace WorldScript.Text

/-- The text with its ASCII letters in lower case. -/
def lower (s : String) : String := String.ofList (s.toList.map Char.toLower)

theorem toLower_toLower (c : Char) : c.toLower.toLower = c.toLower := by
  delta Char.toLower
  split
  · rename_i h
    split
    · rename_i h'
      simp only [UInt32.le_iff_toNat_le, UInt32.toNat_add] at h h'
      simp at h h'
      omega
    · rfl
  · rfl

theorem lower_lower (s : String) : lower (lower s) = lower s := by
  have h : Char.toLower ∘ Char.toLower = Char.toLower := funext toLower_toLower
  simp only [lower, String.toList_ofList, List.map_map, h]

/-- The letter that a character stands for in a keyword. -/
def letter (c : Char) : Char :=
  if c = '\u017f' then 's' else if c = '\u212a' then 'k' else c.toLower

/-- What follows the keyword at the start of a text, if the text starts with it. -/
def keyword? (word : List Char) (s : List Char) : Option (List Char) :=
  match word, s with
  | [], s => some s
  | _ :: _, [] => none
  | w :: ws, c :: cs => if letter c = w then keyword? ws cs else none

/-- The text is the keyword and nothing else. -/
def isKeyword (word : String) (s : List Char) : Bool := keyword? word.toList s == some []

/-- The character is an ASCII letter or a case variant of one. -/
def isLetter (c : Char) : Bool := (letter c).isLower

/-- The character can continue a word: a letter, an ASCII digit or an underscore. -/
def isNameChar (c : Char) : Bool := isLetter c || c.isDigit || c == '_'

/-- The word at the start of a text and what follows it. -/
def word? (s : List Char) : Option (List Char × List Char) :=
  match s with
  | [] => none
  | c :: _ => if isLetter c then some (s.takeWhile isNameChar, s.dropWhile isNameChar) else none

/-! ### Laws -/

theorem word?_append {s w rest : List Char} (h : word? s = some (w, rest)) : w ++ rest = s := by
  cases s with
  | nil => simp [word?] at h
  | cons c r =>
    simp only [word?] at h
    split at h
    · simp only [Option.some.injEq, Prod.mk.injEq] at h
      rw [← h.1, ← h.2, List.takeWhile_append_dropWhile]
    · simp at h

end WorldScript.Text
