import WorldScript.Statement.Basic
import WorldScript.Text.Blank
import WorldScript.Text.Fold
import WorldScript.Text.WordChar

/-! # Forms of lines

A statement is recognised by its line alone. `LineForm.recognisers` lists the forms in the order in
which they are tried; each gives the pieces of text that the statement is made of. Lines are
trimmed, and keywords may be written in either case. -/

namespace WorldScript

/-- A line of a source, taken apart. -/
inductive LineForm
  | declare (name type : List Char) (initial : Option (List Char))
  | ifChain (test : List Char)
  | forCount (name count : List Char)
  | forEach (name items : List Char)
  | whileLoop (test : List Char)
  | switch (value : List Char)
  | delay (duration : List Char)
  | breakOut
  | continueOn
  | returnWith (value : Option (List Char))
  | addItem (name : List Char) (key : Option (List Char)) (item : List Char)
  | addRange (name items : List Char)
  | removeItem (name item : List Char)
  | removeAt (name index : List Char)
  | clearItems (name : List Char)
  | setItem (name key item : List Char)
  | removeKey (name key : List Char)
  /-- A line that belongs to a block. -/
  | separator
  | compound (name : List Char) (op : CompoundOp) (value : List Char)
  | assign (name value : List Char)
  | call
  deriving DecidableEq

namespace LineForm

open Text

/-! ### Pieces of lines -/

/-- What follows a blank or several. -/
def afterBlanks? (s : List Char) : Option (List Char) :=
  match s with
  | [] => none
  | c :: _ => if isBlank c then some (trimLeft s) else none

/-- What follows a keyword and the blanks after it. -/
def afterKeyword? (word : String) (s : List Char) : Option (List Char) :=
  (keyword? word.toList s).bind afterBlanks?

/-- The text, if it is not empty. -/
def nonempty? (s : List Char) : Option (List Char) := if s.isEmpty then none else some s

/-- What stands before a closing parenthesis at the very end. -/
def beforeClose? (s : List Char) : Option (List Char) :=
  if s.getLast? = some ')' then some s.dropLast else none

/-- What stands between an opening parenthesis, perhaps after blanks, and a closing one at the very
end. -/
def parenthesized? (s : List Char) : Option (List Char) :=
  match trimLeft s with
  | '(' :: rest => beforeClose? rest
  | _ => none

/-- The text in parentheses after a keyword. -/
def keywordParens? (word : String) (s : List Char) : Option (List Char) :=
  (keyword? word.toList s).bind parenthesized?

/-- A word, perhaps after `@`, and what follows it. -/
def target? (s : List Char) : Option (List Char × List Char) :=
  match s with
  | '@' :: rest => word? rest
  | s => word? s

/-- The text after an equals sign, perhaps after blanks. -/
def afterEquals? (s : List Char) : Option (List Char) :=
  match trimLeft s with
  | '=' :: rest => nonempty? rest
  | _ => none

/-- A text cut before the first place, not its start, where the rest is of the given form. -/
def cutBefore (form : List Char → Option (List Char)) : List Char → List Char × Option (List Char)
  | [] => ([], none)
  | c :: rest =>
    match form rest with
    | some found => ([c], some found)
    | none =>
      let (before, found) := cutBefore form rest
      (c :: before, found)

/-- A run of non-blanks, as long as it can be, after which the rest is of the given form. -/
def longestRun? (form : List Char → Option (List Char)) :
    List Char → Option (List Char × List Char)
  | [] => none
  | c :: rest =>
    if isBlank c then none
    else
      match longestRun? form rest with
      | some (run, found) => some (c :: run, found)
      | none => (form rest).map fun found => ([c], found)

/-- A run of non-blanks before a rest of the given form. An `@` in front is left out, unless nothing
else is there. -/
def nameBefore? (form : List Char → Option (List Char)) (s : List Char) :
    Option (List Char × List Char) :=
  match s with
  | '@' :: rest => (longestRun? form rest).or (longestRun? form s)
  | s => longestRun? form s

/-! ### Forms -/

/-- `var name as type`, perhaps with `= value`. -/
def declare? (s : List Char) : Option LineForm := do
  let s ← afterKeyword? "var" s
  let name ← nonempty? (s.takeWhile (!isBlank ·))
  let s ← afterBlanks? (s.dropWhile (!isBlank ·))
  let s ← afterKeyword? "as" s
  let s ← nonempty? s
  let (type, initial) := cutBefore afterEquals? s
  return .declare name type initial

/-- The rest of a `for` line after its name. -/
def forRest? (s : List Char) : Option (List Char) :=
  match trimLeft s with
  | ':' :: rest => (beforeClose? rest).bind nonempty?
  | _ => none

/-- `for (name : count)` -/
def forCount? (s : List Char) : Option LineForm := do
  let s ← keyword? "for".toList s
  match trimLeft s with
  | '(' :: rest =>
    let (name, count) ← nameBefore? forRest? (trimLeft rest)
    return .forCount name count
  | _ => none

/-- The rest of a `foreach` line after its name. -/
def forEachRest? (s : List Char) : Option (List Char) := do
  let s ← afterBlanks? s
  match ← keyword? "in".toList s with
  | [] => none
  | c :: rest => if isBlank c then (beforeClose? rest).bind nonempty? else none

/-- `foreach (name in items)` -/
def forEach? (s : List Char) : Option LineForm := do
  let s ← keyword? "foreach".toList s
  match trimLeft s with
  | '(' :: rest =>
    let (name, items) ← nameBefore? forEachRest? (trimLeft rest)
    return .forEach name items
  | _ => none

/-- `return`, perhaps with a value. -/
def return? (s : List Char) : Option LineForm := do
  match ← keyword? "return".toList s with
  | [] => some (.returnWith none)
  | rest => ((afterBlanks? rest).bind nonempty?).map fun value => .returnWith (some value)

/-- A value after blanks. -/
def operand? (s : List Char) : Option (List Char) := (afterBlanks? s).bind nonempty?

/-- What `form` reads after a closing bracket. -/
def afterBracket? (form : List Char → Option (List Char)) (s : List Char) : Option (List Char) :=
  match s with
  | ']' :: rest => form rest
  | _ => none

/-- The rest of a line after a key in brackets, when `form` reads what follows the brackets. -/
def afterKey? (form : List Char → Option (List Char)) (s : List Char) :
    Option (List Char × List Char) :=
  match trimLeft s with
  | '[' :: rest =>
    match cutBefore (afterBracket? form) rest with
    | (key, some found) => some (key, found)
    | (_, none) => none
  | _ => none

/-- `additem name item`, or `additem name[key] item`. -/
def addItem? (s : List Char) : Option LineForm := do
  let s ← afterKeyword? "additem" s
  let (name, rest) ← target? s
  match afterKey? operand? rest with
  | some (key, item) => some (.addItem name (some key) item)
  | none => (operand? rest).map fun item => .addItem name none item

/-- `setitem name[key] = item` -/
def setItem? (s : List Char) : Option LineForm := do
  let s ← afterKeyword? "setitem" s
  let (name, rest) ← target? s
  let (key, item) ← afterKey? afterEquals? rest
  return .setItem name key item

/-- A keyword, a name and a value. -/
def keywordTarget? (word : String) (make : List Char → List Char → LineForm) (s : List Char) :
    Option LineForm := do
  let s ← afterKeyword? word s
  let (name, rest) ← target? s
  let value ← operand? rest
  return make name value

/-- `clearitems name` -/
def clearItems? (s : List Char) : Option LineForm := do
  let s ← afterKeyword? "clearitems" s
  match ← target? s with
  | (name, []) => some (.clearItems name)
  | _ => none

/-- A keyword after which no word goes on. -/
def startsWithWord (word : String) (s : List Char) : Bool :=
  match keyword? word.toList s with
  | none => false
  | some [] => true
  | some (c :: _) => !isWordChar c

/-- `end` and the keyword of a block, perhaps with blanks between them. -/
def isEnd (word : String) (s : List Char) : Bool :=
  match keyword? "end".toList s with
  | none => false
  | some rest => isKeyword word (trimLeft rest)

/-- The keywords of blocks. -/
def blockWords : List String := ["if", "for", "foreach", "while", "switch", "delay"]

/-- A line that separates or ends the parts of blocks. -/
def separator? (s : List Char) : Option LineForm :=
  if isKeyword "else" s || startsWithWord "elseif" s || startsWithWord "case" s ||
      isKeyword "default" s || blockWords.any (isEnd · s) then
    some .separator
  else none

/-- The operator of a compound assignment. -/
def compoundOp? (c : Char) : Option CompoundOp :=
  if c = '+' then some .add
  else if c = '-' then some .sub
  else if c = '*' then some .mul
  else if c = '/' then some .div
  else none

/-- `name += value` and the like. -/
def compound? (s : List Char) : Option LineForm := do
  let (name, rest) ← target? s
  match trimLeft rest with
  | c :: '=' :: value =>
    let op ← compoundOp? c
    let value ← nonempty? value
    return .compound name op value
  | _ => none

/-- `name = value` -/
def assign? (s : List Char) : Option LineForm := do
  let (name, rest) ← target? s
  match trimLeft rest with
  | '=' :: c :: value => if c = '=' then none else some (.assign name (c :: value))
  | _ => none

/-- `name(…)` -/
def call? (s : List Char) : Option LineForm := do
  let (_, rest) ← word? s
  let _ ← parenthesized? rest
  return .call

/-- The forms in the order in which they are tried. -/
def recognisers : List (List Char → Option LineForm) := [
  declare?,
  fun s => (keywordParens? "if" s).map .ifChain,
  forCount?,
  forEach?,
  fun s => (keywordParens? "while" s).map .whileLoop,
  fun s => (keywordParens? "switch" s).map .switch,
  fun s => (keywordParens? "delay" s).map .delay,
  fun s => if isKeyword "break" s then some .breakOut else none,
  fun s => if isKeyword "continue" s then some .continueOn else none,
  return?,
  addItem?,
  keywordTarget? "addrange" .addRange,
  keywordTarget? "removeitem" .removeItem,
  keywordTarget? "removeat" .removeAt,
  clearItems?,
  setItem?,
  keywordTarget? "removekey" .removeKey,
  separator?,
  compound?,
  assign?,
  call?]

/-- The form of a line. -/
def read? (s : List Char) : Option LineForm := recognisers.findSome? (· s)

/-! ### Lines inside of blocks -/

/-- The condition of an `elseif` line. -/
def elseIf? (s : List Char) : Option (List Char) := do
  let rest ← keyword? "else".toList s
  keywordParens? "if" (trimLeft rest)

/-- A line that ends an arm of an `if`. -/
def isArmEnd (s : List Char) : Bool := isEnd "if" s || isKeyword "else" s || (elseIf? s).isSome

/-- The value of a `case` line. -/
def case? (s : List Char) : Option (List Char) := keywordParens? "case" s

/-- A line that ends a section of a `switch`. -/
def isSectionEnd (s : List Char) : Bool :=
  (case? s).isSome || isKeyword "default" s || isEnd "switch" s

end LineForm

end WorldScript
