import WorldScript.Text.Blank
import WorldScript.Text.Fold
import WorldScript.Text.Quoted
import WorldScript.Number.Layout
import WorldScript.Number.Read

/-! # Tokens

The words of the expression language. `Token.scan` cuts a text into tokens: blanks separate them,
every other character belongs to exactly one token. -/

namespace WorldScript

/-- A word of an expression. -/
inductive Token
  | number (n : Float)
  | text (s : String)
  | word (s : String)
  /-- A name after `@`. -/
  | var (s : String)
  | plus | minus | star | slash | percent | bang
  | equal | unequal | less | atMost | greater | atLeast
  | and | or
  | comma | openParen | closeParen | openBracket | closeBracket
  /-- A character that starts no token. -/
  | unknown (c : Char)

namespace Token

/-- The token as messages write it. -/
def listed : Token → String
  | number n => "Number(" ++ Number.listed n ++ ")"
  | text s => "Text(" ++ Text.quoted s ++ ")"
  | word s => "Ident(" ++ Text.quoted s ++ ")"
  | var s => "Var(" ++ Text.quoted s ++ ")"
  | plus => "Plus"
  | minus => "Minus"
  | star => "Star"
  | slash => "Slash"
  | percent => "Percent"
  | bang => "Bang"
  | equal => "Eq"
  | unequal => "Ne"
  | less => "Lt"
  | atMost => "Le"
  | greater => "Gt"
  | atLeast => "Ge"
  | and => "And"
  | or => "Or"
  | comma => "Comma"
  | openParen => "LParen"
  | closeParen => "RParen"
  | openBracket => "LBracket"
  | closeBracket => "RBracket"
  | unknown c => "Unknown('" ++ String.ofList [c] ++ "')"

/-- The ways in which a text cannot be cut into tokens. -/
inductive ScanError
  | unterminatedText
  | missingName
  deriving DecidableEq, Repr

/-- What is told about a text that cannot be cut. -/
def ScanError.message : ScanError → String
  | unterminatedText => "unterminated text literal"
  | missingName => "expected a variable name after '@'"

/-! ### Single tokens -/

/-- The character can continue a word. -/
def isWordChar (c : Char) : Bool := c.isAlphanum || c == '_'

/-- The character that a backslash and a letter stand for. -/
def unescape (c : Char) : Char := if c = 'n' then '\n' else if c = 't' then '\t' else c

/-- A text literal after its opening quote: what it says, and what follows its closing quote. -/
def scanText? (quote : Char) : List Char → Option (List Char × List Char)
  | [] => none
  | ['\\'] => none
  | '\\' :: c :: rest => (scanText? quote rest).map fun (s, r) => (unescape c :: s, r)
  | c :: rest =>
    if c = quote then some ([], rest)
    else (scanText? quote rest).map fun (s, r) => (c :: s, r)

/-- A number at the start of a text that starts with a digit. A point belongs to it only if a digit
follows. -/
def scanNumber (s : List Char) : Float × List Char :=
  let whole := s.takeWhile Char.isDigit
  match s.dropWhile Char.isDigit with
  | '.' :: d :: rest =>
    if d.isDigit then
      let fraction := (d :: rest).takeWhile Char.isDigit
      (Number.ofDecimal (Number.ofDigits (whole ++ fraction)) (-fraction.length),
        (d :: rest).dropWhile Char.isDigit)
    else (Number.ofDecimal (Number.ofDigits whole) 0, '.' :: d :: rest)
  | rest => (Number.ofDecimal (Number.ofDigits whole) 0, rest)

/-- The token of a word: three words are operators. -/
def ofWord (w : String) : Token :=
  let key := Text.lower w
  if key = "and" then and else if key = "or" then or else if key = "not" then bang else word w

/-- The longer token if the given character follows, otherwise the shorter one. -/
def followedBy (c : Char) (long short : Token) : List Char → Token × List Char
  | d :: rest => if d = c then (long, rest) else (short, d :: rest)
  | [] => (short, [])

/-- The token at the start of the text `c :: rest`, where `c` is no blank. -/
def scanOne (c : Char) (rest : List Char) : Except ScanError (Token × List Char) :=
  if c.isDigit then
    let (n, r) := scanNumber (c :: rest)
    .ok (number n, r)
  else if c = '"' || c = '\'' then
    match scanText? c rest with
    | some (s, r) => .ok (text (String.ofList s), r)
    | none => .error .unterminatedText
  else if c = '@' then
    match rest.takeWhile isWordChar with
    | [] => .error .missingName
    | name => .ok (var (String.ofList name), rest.dropWhile isWordChar)
  else if c.isAlpha then
    .ok (ofWord (String.ofList (c :: rest.takeWhile isWordChar)), rest.dropWhile isWordChar)
  else
    match c with
    | '+' => .ok (plus, rest)
    | '-' => .ok (minus, rest)
    | '*' => .ok (star, rest)
    | '/' => .ok (slash, rest)
    | '%' => .ok (percent, rest)
    | '!' => .ok (followedBy '=' unequal bang rest)
    | '=' => .ok (followedBy '=' equal (unknown '=') rest)
    | '<' => .ok (followedBy '=' atMost less rest)
    | '>' => .ok (followedBy '=' atLeast greater rest)
    | '&' => .ok (followedBy '&' and (unknown '&') rest)
    | '|' => .ok (followedBy '|' or (unknown '|') rest)
    | ',' => .ok (comma, rest)
    | '(' => .ok (openParen, rest)
    | ')' => .ok (closeParen, rest)
    | '[' => .ok (openBracket, rest)
    | ']' => .ok (closeBracket, rest)
    | c => .ok (unknown c, rest)

/-! ### Whole texts -/

/-- The first `n` tokens of a text. -/
def scanFirst : Nat → List Char → Except ScanError (List Token)
  | 0, _ => .ok []
  | n + 1, s =>
    match Text.trimLeft s with
    | [] => .ok []
    | c :: rest => do
      let (t, r) ← scanOne c rest
      let ts ← scanFirst n r
      return t :: ts

/-- The tokens of a text. There are no more of them than characters. -/
def scan (s : String) : Except ScanError (List Token) := scanFirst s.toList.length s.toList

end Token

end WorldScript
