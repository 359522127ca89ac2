import WorldScript.Library.Basic
import WorldScript.Heap.Equality
import WorldScript.Number.Parts
import WorldScript.Number.Read
import WorldScript.Text.Case

/-! # The standard library

The functions that every program can call. All of them only read: none changes a cell or makes a
note. An argument that does not have the declared type is an error of the call. -/

namespace WorldScript.Library.Standard

/-- The number among the arguments at a place counted from zero. -/
def numberArg (function : String) (args : List Value) (i : Nat) : Except CallError Float :=
  match args[i]?.bind Value.number? with
  | some n => .ok n
  | none => .error (.argument function (i + 1) "a number")

/-- The text among the arguments at a place counted from zero. -/
def textArg (function : String) (args : List Value) (i : Nat) : Except CallError String :=
  match args[i]?.bind Value.text? with
  | some s => .ok s
  | none => .error (.argument function (i + 1) "text")

/-- The items of the sequence among the arguments at a place counted from zero. -/
def itemsArg (function : String) (h : Heap) (args : List Value) (i : Nat) :
    Except CallError (List Value) :=
  match args[i]? with
  | some (.collection cell) => .ok (h.lists.get cell)
  | _ => .error (.argument function (i + 1) "a collection")

/-- The entries of the dictionary that comes first. -/
def entriesArg (function : String) (h : Heap) (args : List Value) :
    Except CallError (Dict Value) :=
  match args with
  | .dictionary cell :: _ => .ok (h.dicts.get cell)
  | _ => .error (.expected function "a dictionary")

/-- The entries of the groups that come first. -/
def groupsArg (function : String) (h : Heap) (args : List Value) :
    Except CallError (Dict (List Value)) :=
  match args with
  | .groups cell :: _ => .ok (h.groups.get cell)
  | _ => .error (.expected function "a collection dictionary")

/-- A count as a number. -/
def ofCount (n : Nat) : Value := .number (Float.ofNat n)

/-! ### Collections -/

def countItems : Function :=
  .reading "count" [.anything ||| .collection] .number fun h args => do
    return ofCount (← itemsArg "count" h args 0).length

def countEntries : Function :=
  .reading "count" [.anything ||| .dictionary] .number fun h args => do
    return ofCount (← entriesArg "count" h args).size

def countGrouped : Function :=
  .reading "count" [.anything ||| .groups] .number fun h args => do
    let d ← groupsArg "count" h args
    return ofCount (d.entries.foldl (fun n e => n + e.2.length) 0)

def contains : Function :=
  .reading "contains" [.anything ||| .collection, .anything] .boolean fun h args => do
    let items ← itemsArg "contains" h args 0
    match args[1]? with
    | some needle => return .boolean (items.any fun v => h.same v needle)
    | none => .error (.tooFew "contains")

def hasEntry : Function :=
  .reading "haskey" [.anything ||| .dictionary, .text] .boolean fun h args => do
    let key ← textArg "haskey" args 1
    return .boolean ((← entriesArg "haskey" h args).contains key)

def hasGroup : Function :=
  .reading "haskey" [.anything ||| .groups, .text] .boolean fun h args => do
    let key ← textArg "haskey" args 1
    return .boolean ((← groupsArg "haskey" h args).contains key)

/-! ### Conversion -/

def toNumber : Function :=
  .reading "tonumber" [.text] .number fun _ args => do
    let s ← textArg "tonumber" args 0
    match Number.read? (Text.trim s.toList) with
    | some n => return .number n
    | none => .error (.notNumeric s)

def toText : Function :=
  .reading "totext" [.anything] .text fun h args =>
    match args with
    | v :: _ => .ok (.text (h.render v))
    | [] => .error (.tooFew "totext")

def isNull : Function :=
  .reading "isnull" [.anything] .boolean fun _ args =>
    match args with
    | v :: _ => .ok (.boolean v.isNull)
    | [] => .ok (.boolean true)

/-! ### Numbers -/

def round : Function :=
  .reading "round" [.number] .number fun _ args => do
    return .number (Number.round (← numberArg "round" args 0))

def abs : Function :=
  .reading "abs" [.number] .number fun _ args => do
    return .number (← numberArg "abs" args 0).abs

def min : Function :=
  .reading "min" [.number, .number] .number fun _ args => do
    let a ← numberArg "min" args 0
    let b ← numberArg "min" args 1
    return .number (Number.least a b)

def max : Function :=
  .reading "max" [.number, .number] .number fun _ args => do
    let a ← numberArg "max" args 0
    let b ← numberArg "max" args 1
    return .number (Number.greatest a b)

/-! ### Texts -/

def upper : Function :=
  .reading "upper" [.text] .text fun _ args => do
    return .text (Text.upperCase (← textArg "upper" args 0))

def lower : Function :=
  .reading "lower" [.text] .text fun _ args => do
    return .text (Text.lowerCase (← textArg "lower" args 0))

def length : Function :=
  .reading "length" [.text] .number fun _ args => do
    return ofCount (← textArg "length" args 0).length

/-! ### Entities -/

def name : Function :=
  .reading "name" [.perceivable] .text fun h args =>
    match args with
    | .entity e :: _ => .ok (.text e.name)
    | [] => .error .nullReference
    | .null :: _ => .error .nullReference
    | v :: _ => .error (.notEntity (h.render v))

end WorldScript.Library.Standard

namespace WorldScript.Library

/-- The functions that every program can call. -/
def standard : Library := ⟨[
  Standard.countItems, Standard.countEntries, Standard.countGrouped, Standard.contains,
  Standard.hasEntry, Standard.hasGroup, Standard.toNumber, Standard.toText, Standard.isNull,
  Standard.round, Standard.abs, Standard.min, Standard.max, Standard.upper, Standard.lower,
  Standard.length, Standard.name]⟩

end WorldScript.Library
