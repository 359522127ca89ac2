import WorldScript.Ty.Name
import WorldScript.World
import WorldScript.Heap.Show

/-! # Libraries of functions

A function has a name, the types it takes and gives, and what it does to the world. A library is a
list of functions in the order in which they were registered; of the functions of one name, the
first that accepts the argument types is called. -/

namespace WorldScript

/-- The ways in which a call can fail. -/
inductive CallError
  /-- An argument, counted from one, is not of the wanted sort. -/
  | argument (function : String) (position : Nat) (wanted : String)
  /-- The first argument is not of the wanted sort. -/
  | expected (function wanted : String)
  | tooFew (function : String)
  | notNumeric (s : String)
  | nullReference
  | notEntity (shown : String)
  /-- A host function failed with a text of its own. -/
  | host (message : String)
  deriving DecidableEq, Repr

/-- What is told about a failed call. -/
def CallError.message : CallError → String
  | argument function position wanted => s!"{function}: argument {position} must be {wanted}"
  | expected function wanted => s!"{function}: expected {wanted}"
  | tooFew function => s!"{function}: too few args"
  | notNumeric s => s!"tonumber: '{s}' is not a number"
  | nullReference => "name: null reference"
  | notEntity shown => s!"name: expected an entity, got {shown}"
  | host message => message

/-- A function that expressions can call. -/
structure Function where
  name : String
  parameters : List Ty
  returns : Ty
  run : List Value → World → Except CallError Value × World

namespace Function

/-- A function that only reads the heap. -/
def reading (name : String) (parameters : List Ty) (returns : Ty)
    (read : Heap → List Value → Except CallError Value) : Function :=
  ⟨name, parameters, returns, fun args w => (read w.heap args, w)⟩

/-- The function takes arguments of these types. -/
def accepts (f : Function) (types : List Ty) : Bool :=
  f.parameters.length == types.length &&
    (f.parameters.zip types).all fun (p, t) => p.accepts t

/-- The function as messages and listings write it. -/
def signature (f : Function) : String :=
  f.name ++ "(" ++ joined (f.parameters.map Ty.describe) ++ ") -> " ++ f.returns.describe

end Function

/-- Functions in the order of their registration. -/
structure Library where
  functions : List Function

namespace Library

/-- No functions. -/
def empty : Library := ⟨[]⟩

/-- The library with one more function, whose name is put in lower case. -/
def register (l : Library) (f : Function) : Library :=
  ⟨l.functions ++ [{ f with name := Text.lower f.name }]⟩

/-- The functions of a name. -/
def overloads (l : Library) (name : String) : List Function :=
  l.functions.filter (·.name == Text.lower name)

/-- There is a function of that name. -/
def contains (l : Library) (name : String) : Bool := !(l.overloads name).isEmpty

/-- The ways in which a call matches no function. -/
inductive ResolveError
  | unknown (name : String)
  | noOverload (name : String) (types : List Ty) (candidates : List String)
  deriving DecidableEq

/-- What is told about a call that matches no function. -/
def ResolveError.message : ResolveError → String
  | unknown name => s!"unknown function {name}"
  | noOverload name types candidates =>
    s!"no overload of {name} accepts (" ++ joined (types.map Ty.describe) ++ "); candidates: " ++
      "; ".intercalate candidates

/-- The function that a call means. -/
def resolve (l : Library) (name : String) (types : List Ty) : Except ResolveError Function :=
  match l.overloads name with
  | [] => .error (.unknown name)
  | fs =>
    match fs.find? (·.accepts types) with
    | some f => .ok f
    | none => .error (.noOverload name types (fs.map (·.signature)))

/-- The names of functions, each once and in order. -/
def names (l : Library) : List String :=
  (l.functions.foldl (fun d f => d.insert f.name ()) (Dict.empty : Dict Unit)).keys

end Library

end WorldScript
