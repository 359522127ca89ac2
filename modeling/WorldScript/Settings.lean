import WorldScript.Text.Blank
import WorldScript.Text.Fold
import WorldScript.Number.Read

/-! # Settings

What the compiler may be told, and the text form of it: lines `name = value`, among blank lines and
comments that start with `;` or `#`. A line that cannot be read is reported and changes nothing. -/

namespace WorldScript

/-- Settings of the compiler. -/
structure Settings where
  /-- The deepest nesting of blocks that is allowed. -/
  maxNesting : Nat := 32
  /-- A `break` or `continue` outside of what it leaves is an error. -/
  strictJumps : Bool := true
  deriving DecidableEq, Repr

namespace Settings

instance : Inhabited Settings := ⟨{}⟩

/-- The greatest nesting that a text can ask for. -/
def nestingLimit : Nat := 256

/-- The ways in which a line can be wrong. -/
inductive Fault
  | notAssignment (line : String)
  | nestingNotNumber (value : String)
  | nestingOutOfRange
  | jumpsNotSwitch (value : String)
  | unknown (name : String)
  deriving DecidableEq, Repr

/-- What is told about a wrong line. -/
def Fault.message : Fault → String
  | notAssignment line => s!"expected 'name = value', got '{line}'"
  | nestingNotNumber value => s!"max_nesting_depth: invalid number '{value}'"
  | nestingOutOfRange => s!"max_nesting_depth must be between 1 and {nestingLimit}"
  | jumpsNotSwitch value => s!"strict_jumps: expected on/off, got '{value}'"
  | unknown name => s!"unknown setting '{name}'"

/-- A wrong line of a settings text. -/
structure Error where
  line : Nat
  fault : Fault
  deriving DecidableEq, Repr

/-- An error with its line. -/
def Error.text (e : Error) : String := s!"line {e.line}: " ++ e.fault.message

/-- A whole number of at most 64 bits: digits, perhaps after a plus sign. -/
def readCount? (s : List Char) : Option Nat :=
  let ds := match s with
    | '+' :: r => r
    | r => r
  if ds.isEmpty || ds.any (!·.isDigit) then none
  else
    let n := Number.ofDigits ds
    if n < Nat.pow 2 64 then some n else none

/-- The words for yes and no. -/
def readSwitch? (s : String) : Option Bool :=
  let word := Text.lower s
  if ["1", "on", "true", "yes"].contains word then some true
  else if ["0", "off", "false", "no"].contains word then some false
  else none

/-- The settings with one of them changed. -/
def assign (s : Settings) (name value : String) : Except Fault Settings :=
  let key := Text.lower name
  if key = "max_nesting_depth" then
    match readCount? value.toList with
    | none => .error (.nestingNotNumber value)
    | some n =>
      if 1 ≤ n && n ≤ nestingLimit then .ok { s with maxNesting := n }
      else .error .nestingOutOfRange
  else if key = "strict_jumps" then
    match readSwitch? value with
    | none => .error (.jumpsNotSwitch value)
    | some b => .ok { s with strictJumps := b }
  else .error (.unknown key)

/-- The settings after one trimmed line, or what is wrong with it. -/
def applyLine (s : Settings) (line : List Char) : Except Fault Settings :=
  match line with
  | [] => .ok s
  | c :: _ =>
    if c = ';' || c = '#' then .ok s
    else
      match line.dropWhile (· ≠ '=') with
      | [] => .error (.notAssignment (String.ofList line))
      | _ :: value =>
        s.assign (String.ofList (Text.trim (line.takeWhile (· ≠ '='))))
          (String.ofList (Text.trim value))

/-- The settings and the errors after some lines, the first of which has the given number. -/
def applyLines (s : Settings) (number : Nat) : List (List Char) → Settings × List Error
  | [] => (s, [])
  | raw :: rest =>
    match s.applyLine (Text.trim raw) with
    | .ok s => s.applyLines (number + 1) rest
    | .error fault =>
      let (s, errors) := s.applyLines (number + 1) rest
      (s, ⟨number, fault⟩ :: errors)

/-- The settings that a text asks for, over the defaults, and the errors of its lines. -/
def read (s : String) : Settings × List Error :=
  applyLines {} 1 (Text.lines s.toList)

end Settings

end WorldScript
