import WorldScript.Dict
import WorldScript.Value
import WorldScript.Text.Fold

/-! # Spaces of variables

A space is a stack of frames, the innermost first. A name is found in the innermost frame that has
it, written where it was found, and declared in the innermost frame if it is not visible yet. The
last frame is never left. -/

namespace WorldScript

/-- A value with the type it was declared with. -/
structure Variable where
  type : Ty
  value : Value

instance : Inhabited Variable := ⟨⟨.void, .null⟩⟩

/-- The variables of one block. -/
abbrev Frame := Dict Variable

/-- The visible variables of a running program. -/
structure Space where
  inner : Frame
  outer : List Frame

namespace Space

instance : Inhabited Space := ⟨⟨.empty, []⟩⟩

/-- One frame and no variables. -/
def empty : Space := ⟨.empty, []⟩

/-- All frames, the innermost first. -/
def frames (s : Space) : List Frame := s.inner :: s.outer

/-- The number of frames. -/
def depth (s : Space) : Nat := s.frames.length

/-- The variable of the first frame that has the key. -/
def findIn (key : String) (frames : List Frame) : Option Variable := frames.findSome? (·.find? key)

/-- A visible variable. -/
def get? (s : Space) (name : String) : Option Variable := findIn (Text.lower name) s.frames

/-- The value of a visible variable. -/
def value? (s : Space) (name : String) : Option Value := (s.get? name).map (·.value)

/-- The variable is visible. -/
def contains (s : Space) (name : String) : Bool := (s.get? name).isSome

/-- The space with a new variable in its innermost frame, unless the name is visible already. -/
def declare? (s : Space) (name : String) (type : Ty) (value : Value) : Option Space :=
  if s.contains name then none
  else some { s with inner := s.inner.insert (Text.lower name) ⟨type, value⟩ }

/-- The frames with another value for the key, in the first one that has it. -/
def setIn (key : String) (value : Value) : List Frame → Option (List Frame)
  | [] => none
  | f :: fs =>
    match f.find? key with
    | some v => some (f.insert key { v with value } :: fs)
    | none => (setIn key value fs).map (f :: ·)

/-- The space with another value for a visible variable. -/
def set? (s : Space) (name : String) (value : Value) : Option Space :=
  match setIn (Text.lower name) value s.frames with
  | some (f :: fs) => some ⟨f, fs⟩
  | _ => none

/-- The space inside a new block. -/
def push (s : Space) : Space := ⟨.empty, s.frames⟩

/-- The space outside of the innermost block. -/
def pop (s : Space) : Space :=
  match s.outer with
  | [] => s
  | f :: fs => ⟨f, fs⟩

/-- All visible variables in one frame. -/
def snapshot (s : Space) : Space :=
  ⟨s.frames.foldr (fun f all => all.override f) .empty, []⟩

@[simp] theorem pop_push (s : Space) : s.push.pop = s := rfl

end Space

end WorldScript
