import WorldScript.Number.Parts

/-! # The shortest decimal that reads back

Between its neighbours a number owns an interval of reals that round to it; the ends belong to it
iff its mantissa is even. On the grids of 1, 2, … 17 significant digits the two grid points around
the number are tried, and the first grid with a point in the interval wins. Of two points in the
interval the nearer one is taken, and the upper one if they are equally near. -/

namespace WorldScript.Number

/-- The positive decimal `0.d₁d₂… * 10 ^ point`. -/
structure Decimal where
  digits : List Char
  point : Int
  deriving Repr, DecidableEq

/-- A positive quotient of whole numbers, with the ends of its interval over one denominator. -/
structure Interval where
  value : Nat
  low : Nat
  high : Nat
  unit : Nat
  closed : Bool

/-- The interval of the number `m * 2 ^ q`. The gap below a power of two is half the one above. -/
def Interval.ofParts (m : Nat) (q : Int) : Interval :=
  let below := if m = Nat.pow 2 52 && -1074 < q then 1 else 2
  let scale := if 0 ≤ q then Nat.pow 2 q.toNat else 1
  let unit := if 0 ≤ q then 4 else 4 * Nat.pow 2 (-q).toNat
  ⟨4 * m * scale, (4 * m - below) * scale, (4 * m + 2) * scale, unit, m % 2 == 0⟩

/-- The interval seen in units of `10 ^ k`. -/
def Interval.inUnits (i : Interval) (k : Int) : Interval :=
  if 0 ≤ k then { i with unit := i.unit * Nat.pow 10 k.toNat }
  else
    let s := Nat.pow 10 (-k).toNat
    { i with value := i.value * s, low := i.low * s, high := i.high * s }

/-- The whole number `d` lies in the interval. -/
def Interval.holds (i : Interval) (d : Nat) : Bool :=
  let x := d * i.unit
  if i.closed then i.low ≤ x && x ≤ i.high else i.low < x && x < i.high

/-- The whole number of the interval nearest to the value, if one of its two neighbours is there. -/
def Interval.pick? (i : Interval) : Option Nat :=
  let d := i.value / i.unit
  match i.holds d, i.holds (d + 1) with
  | true, true => some (if 2 * (i.value % i.unit) < i.unit then d else d + 1)
  | true, false => some d
  | false, true => some (d + 1)
  | false, false => none

/-- The exponent `e` with `10 ^ e ≤ value < 10 ^ (e + 1)`, from an estimate that is off by at most
one. -/
def Interval.magnitude (i : Interval) (estimate : Int) : Int :=
  let whole (k : Int) : Nat := (i.inUnits k).value / (i.inUnits k).unit
  if 1 ≤ whole (estimate + 1) then estimate + 1
  else if 1 ≤ whole estimate then estimate
  else estimate - 1

/-- The first grid, of at most `n` more digits than `k` leaves, that has a point in the interval. -/
def Interval.search (i : Interval) (k : Int) : Nat → Nat × Int
  | 0 => ((i.inUnits k).value / (i.inUnits k).unit, k)
  | n + 1 =>
    match (i.inUnits k).pick? with
    | some d => (d, k)
    | none => i.search (k - 1) n

/-- The shortest decimal of the number `m * 2 ^ q`, for a positive `m`. -/
def shortest (m : Nat) (q : Int) : Decimal :=
  let i := Interval.ofParts m q
  let e := i.magnitude (((m.log2 : Int) + q) * 30103 / 100000)
  let (d, k) := i.search e 17
  let digits := Nat.toDigits 10 d
  let significant := (digits.reverse.dropWhile (· == '0')).reverse
  ⟨significant, digits.length + k⟩

end WorldScript.Number
