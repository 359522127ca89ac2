/-! # Types of values

A type is a set of flags of three sorts: the base *kinds* a value may have, the *shape* (collection,
dictionary, groups) it may come in, and *marks* that say where the type was found. Capabilities such
as `perceivable` are plain unions of kinds. Marks never matter for compatibility.

* `accepts_refl`: a type accepts itself.
* `strip_eq_ok_iff`: a flag can be stripped iff it is present. -/

namespace WorldScript

/-- A set of kinds, shapes and marks. -/
structure Ty where
  /-- The base kinds, `Void` in the lowest place. -/
  kinds : BitVec 14
  /-- Collection, dictionary, groups. -/
  shape : BitVec 3
  /-- Literal, reference. -/
  marks : BitVec 2
  deriving DecidableEq, Inhabited

namespace Ty

/-- No flag at all. -/
def empty : Ty := ⟨0, 0, 0⟩

def void : Ty := ⟨0x0001, 0, 0⟩
def number : Ty := ⟨0x0002, 0, 0⟩
def text : Ty := ⟨0x0004, 0, 0⟩
def boolean : Ty := ⟨0x0008, 0, 0⟩
def character : Ty := ⟨0x0010, 0, 0⟩
def item : Ty := ⟨0x0020, 0, 0⟩
def location : Ty := ⟨0x0040, 0, 0⟩
def zone : Ty := ⟨0x0080, 0, 0⟩
def shard : Ty := ⟨0x0100, 0, 0⟩
def exit : Ty := ⟨0x0200, 0, 0⟩
def gender : Ty := ⟨0x0400, 0, 0⟩
def timespan : Ty := ⟨0x0800, 0, 0⟩
def datetime : Ty := ⟨0x1000, 0, 0⟩
def effect : Ty := ⟨0x2000, 0, 0⟩

/-- Characters, items and locations: whatever can perceive. -/
def perceiver : Ty := ⟨0x0070, 0, 0⟩

/-- Whatever can be perceived. -/
def perceivable : Ty := ⟨0x03f0, 0, 0⟩

/-- Every kind but `void`. -/
def anything : Ty := ⟨0x3ffe, 0, 0⟩

/-- Ordered sequences. -/
def collection : Ty := ⟨0, 1, 0⟩

/-- Maps from texts to values. -/
def dictionary : Ty := ⟨0, 2, 0⟩

/-- Maps from texts to sequences. -/
def groups : Ty := ⟨0, 4, 0⟩

/-- The mark of a constant's type. -/
def literal : Ty := ⟨0, 0, 1⟩

/-- The mark of a type that is passed by reference. -/
def reference : Ty := ⟨0, 0, 2⟩

/-! ### Sets of flags -/

/-- The flags of either type. -/
def union (a b : Ty) : Ty := ⟨a.kinds ||| b.kinds, a.shape ||| b.shape, a.marks ||| b.marks⟩

/-- The flags of both types. -/
def inter (a b : Ty) : Ty := ⟨a.kinds &&& b.kinds, a.shape &&& b.shape, a.marks &&& b.marks⟩

/-- The flags of exactly one of the types. -/
def diff (a b : Ty) : Ty := ⟨a.kinds ^^^ b.kinds, a.shape ^^^ b.shape, a.marks ^^^ b.marks⟩

instance : OrOp Ty := ⟨union⟩
instance : AndOp Ty := ⟨inter⟩
instance : XorOp Ty := ⟨diff⟩

/-- Every flag of `b` is a flag of `a`. -/
def contains (a b : Ty) : Bool := a &&& b == b

/-- The kinds alone. -/
def base (t : Ty) : Ty := ⟨t.kinds, 0, 0⟩

/-- The shape alone. -/
def structural (t : Ty) : Ty := ⟨0, t.shape, 0⟩

/-- The type without its marks. -/
def unmarked (t : Ty) : Ty := ⟨t.kinds, t.shape, 0⟩

/-- The type has a shape. -/
def isStructural (t : Ty) : Bool := t.shape != 0

/-- The type is `void`, marks aside. -/
def isVoid (t : Ty) : Bool := t.unmarked == void

/-- `void` is among the kinds. -/
def hasVoid (t : Ty) : Bool := t.kinds &&& 1 != 0

/-! ### Elements -/

/-- A flag was to be removed from a type that does not have it. -/
structure StripFault where
  flag : Ty
  type : Ty
  deriving DecidableEq

/-- The type without a flag that it must have. -/
def strip (t flag : Ty) : Except StripFault Ty :=
  if t.contains flag then .ok (t ^^^ flag) else .error ⟨flag, t⟩

/-- The shape that decides how a type is taken apart: the first it has of collection, dictionary and
groups. -/
def outerShape? (t : Ty) : Option Ty := [collection, dictionary, groups].find? t.contains

/-- The type of the elements of a structural type, `none` for a plain type. -/
def element (t : Ty) : Except StripFault (Option Ty) :=
  match t.unmarked.outerShape? with
  | none => .ok none
  | some flag => (t.unmarked.strip flag).map some

/-! ### Compatibility -/

/-- A value of type `candidate` can stand where `expected` is wanted. Shapes must agree exactly; the
kinds must be equal, or those of the candidate some of the expected ones. `void` goes with itself
only. -/
def accepts (expected candidate : Ty) : Bool :=
  expected.shape == candidate.shape &&
    (expected.kinds == candidate.kinds ||
      (!expected.hasVoid && !candidate.hasVoid && candidate.kinds != 0 &&
        candidate.kinds &&& ~~~expected.kinds == 0))

/-! ### Laws -/

@[simp] theorem or_def (a b : Ty) :
    a ||| b = ⟨a.kinds ||| b.kinds, a.shape ||| b.shape, a.marks ||| b.marks⟩ := rfl

@[simp] theorem and_def (a b : Ty) :
    a &&& b = ⟨a.kinds &&& b.kinds, a.shape &&& b.shape, a.marks &&& b.marks⟩ := rfl

@[simp] theorem xor_def (a b : Ty) :
    a ^^^ b = ⟨a.kinds ^^^ b.kinds, a.shape ^^^ b.shape, a.marks ^^^ b.marks⟩ := rfl

theorem contains_iff {a b : Ty} :
    a.contains b = true ↔
      a.kinds &&& b.kinds = b.kinds ∧ a.shape &&& b.shape = b.shape ∧
        a.marks &&& b.marks = b.marks := by
  cases b; simp [contains]

theorem accepts_refl (t : Ty) : t.accepts t = true := by simp [accepts]

theorem accepts_unmarked_left (a b : Ty) : a.unmarked.accepts b = a.accepts b := rfl

theorem accepts_unmarked_right (a b : Ty) : a.accepts b.unmarked = a.accepts b := rfl

theorem strip_eq_ok_iff {t flag u : Ty} :
    t.strip flag = .ok u ↔ t.contains flag = true ∧ u = t ^^^ flag := by
  unfold strip
  split
  · rename_i h
    simp only [h, Except.ok.injEq, true_and]
    exact eq_comm
  · rename_i h
    simp [h]

theorem contains_of_outerShape? {t flag : Ty} (h : t.outerShape? = some flag) :
    t.contains flag = true := List.find?_some h

end Ty

end WorldScript
