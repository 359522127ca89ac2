/-! # Blanks

The blank characters, and the operations that cut text at them: `trim` removes the blanks around a
text, `words` lists its maximal runs of other characters. -/

namespace WorldScript.Text

/-- The blank characters: tab to carriage return, the space, the next-line control and the spaces
and separators of the wider character set. -/
def isBlank (c : Char) : Bool :=
  let n := c.toNat
  (0x9 ≤ n && n ≤ 0xd) || n == 0x20 || n == 0x85 || n == 0xa0 || n == 0x1680 ||
    (0x2000 ≤ n && n ≤ 0x200a) || n == 0x2028 || n == 0x2029 || n == 0x202f || n == 0x205f ||
    n == 0x3000

/-- The text without the blanks at its start. -/
def trimLeft (s : List Char) : List Char := s.dropWhile isBlank

/-- The text without the blanks at its end. -/
def trimRight (s : List Char) : List Char := (s.reverse.dropWhile isBlank).reverse

/-- The text without the blanks around it. -/
def trim (s : List Char) : List Char := trimRight (trimLeft s)

/-- `trim` of a string. -/
def trimmed (s : String) : String := String.ofList (trim s.toList)

/-- One step of `words`: what is gathered of the current word, and the words after it. -/
def wordStep (c : Char) (acc : List Char × List (List Char)) : List Char × List (List Char) :=
  if isBlank c then ([], if acc.1.isEmpty then acc.2 else acc.1 :: acc.2) else (c :: acc.1, acc.2)

/-- The maximal runs of non-blank characters, in order. -/
def words (s : List Char) : List (List Char) :=
  let (w, ws) := s.foldr wordStep ([], [])
  if w.isEmpty then ws else w :: ws

/-! ### Lines -/

/-- One step of `splitLines`: the current line and the lines after it. -/
def lineStep (c : Char) (acc : List Char × List (List Char)) : List Char × List (List Char) :=
  if c = '\n' then ([], acc.1 :: acc.2) else (c :: acc.1, acc.2)

/-- The text cut at its line feeds. -/
def splitLines (s : List Char) : List (List Char) :=
  let (l, ls) := s.foldr lineStep ([], [])
  l :: ls

/-- A line without the carriage return that ends it. -/
def dropReturn (l : List Char) : List Char :=
  if l.getLast? = some '\r' then l.dropLast else l

/-- The lines of a text: a line feed ends a line, a carriage return right before it belongs to the
line ending, and an empty last line is no line. -/
def lines (s : List Char) : List (List Char) :=
  match (splitLines s).reverse with
  | [] => []
  | last :: ended =>
    ended.reverse.map dropReturn ++ if last.isEmpty then [] else [last]

/-! ### Laws -/

theorem head?_dropWhile_not {p : Char → Bool} {s : List Char} {c : Char}
    (h : (s.dropWhile p).head? = some c) : p c = false := by
  induction s with
  | nil => simp at h
  | cons a r ih =>
    by_cases ha : p a
    · simp [ha] at h; exact ih h
    · simp [ha] at h; subst h; simpa using ha

end WorldScript.Text
