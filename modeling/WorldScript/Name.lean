import WorldScript.Text.Fold

/-! # Names

A name starts with an ASCII letter and goes on with letters, digits and underscores. Names are
compared without regard to the case of their letters; the words of the language are reserved. -/

namespace WorldScript.Name

/-- The hidden variable that holds what a program returns. -/
def returnSlot : String := "return"

/-- The words that cannot be names of variables. -/
def reservedWords : List String := [
  returnSlot, "var", "as", "if", "elseif", "else", "end", "for", "foreach", "in", "while",
  "switch", "case", "default", "break", "continue", "delay", "true", "false", "null", "and",
  "or", "not"]

/-- The name is a word of the language. -/
def isReserved (name : String) : Bool := reservedWords.contains (Text.lower name)

/-- The text has the form of a name. -/
def isValid (name : String) : Bool :=
  match name.toList with
  | [] => false
  | c :: cs => c.isAlpha && cs.all fun d => d.isAlphanum || d == '_'

end WorldScript.Name
