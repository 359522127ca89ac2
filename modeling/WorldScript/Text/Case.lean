import WorldScript.Text.CaseTable

/-! # Changing the case of a text

A character is replaced by its upper-case or lower-case form, which may be several characters. The
one rule that looks around it: a capital sigma at the end of a word becomes the final sigma. -/

namespace WorldScript.Text

/-- The other case of a character by the given tables. -/
def mapCase (long : List (Nat × List Nat)) (runs : List CaseRun) (c : Char) : List Char :=
  match long.lookup c.toNat with
  | some cs => cs.map Char.ofNat
  | none =>
    match runs.find? (·.covers c.toNat) with
    | some r => [Char.ofNat (c.toNat + r.offset).toNat]
    | none => [c]

/-- The upper-case form of a character. -/
def upperChar (c : Char) : List Char := mapCase upperLong upperRuns c

/-- The lower-case form of a character, a capital sigma inside a word included. -/
def lowerChar (c : Char) : List Char := mapCase lowerLong lowerRuns c

/-- Past the case-ignorable characters stands a cased one. -/
def reachesCased (s : List Char) : Bool :=
  match s.dropWhile caseIgnorableRanges.contains with
  | [] => false
  | c :: _ => casedRanges.contains c

/-- The lower-case form of a text, given the characters before it in reverse order. -/
def lowerFrom (before : List Char) : List Char → List Char
  | [] => []
  | c :: rest =>
    (if c = 'Σ' then
      if reachesCased before && !reachesCased rest then ['ς'] else ['σ']
    else lowerChar c) ++ lowerFrom (c :: before) rest

/-- The text in upper case. -/
def upperCase (s : String) : String := String.ofList (s.toList.flatMap upperChar)

/-- The text in lower case. -/
def lowerCase (s : String) : String := String.ofList (lowerFrom [] s.toList)

end WorldScript.Text
