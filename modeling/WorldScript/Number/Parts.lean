/-! # Numbers as mantissa and exponent

A finite number is `± mantissa * 2 ^ exponent`. Rounding and remainders are computed on these parts
in exact arithmetic, so they depend on no rounding of the machine's own. -/

namespace WorldScript.Number

/-- A finite number `± mantissa * 2 ^ exponent`. -/
structure Parts where
  negative : Bool
  mantissa : Nat
  exponent : Int
  deriving Repr, DecidableEq

/-- The sign bit is set. -/
def isNegative (x : Float) : Bool := x.toBits.toNat / Nat.pow 2 63 == 1

/-- The parts of a finite number. -/
def parts? (x : Float) : Option Parts :=
  let bits := x.toBits.toNat
  let power : Nat := bits / Nat.pow 2 52 % Nat.pow 2 11
  let fraction := bits % Nat.pow 2 52
  if power = 2047 then none
  else if power = 0 then some ⟨isNegative x, fraction, -1074⟩
  else some ⟨isNegative x, fraction + Nat.pow 2 52, (power : Int) - 1075⟩

/-- `m * 2 ^ e` as a whole number, the fractional bits cut off. -/
def shift (m : Nat) (e : Int) : Nat :=
  if 0 ≤ e then m * Nat.pow 2 e.toNat else m / Nat.pow 2 (-e).toNat

/-- The number with the given parts. It is exact when the mantissa has at most 53 significant bits
and the exponent is in range. -/
def Parts.toFloat (p : Parts) : Float :=
  let sign := if p.negative then Nat.pow 2 63 else 0
  let bits :=
    if p.mantissa = 0 then 0
    else
      let top := (p.mantissa.log2 : Int) + p.exponent
      if 1023 < top then 2047 * Nat.pow 2 52
      else if top < -1022 then shift p.mantissa (p.exponent + 1074)
      else
        (top + 1023).toNat * Nat.pow 2 52 +
          (shift p.mantissa (52 - p.mantissa.log2) - Nat.pow 2 52)
  Float.ofBits (UInt64.ofNat (sign + bits))

/-- The nearest whole number, a half going away from zero. -/
def round (x : Float) : Float :=
  match parts? x with
  | none => x
  | some p =>
    if 0 ≤ p.exponent then x
    else
      let unit := Nat.pow 2 (-p.exponent).toNat
      Parts.toFloat ⟨p.negative, (p.mantissa + unit / 2) / unit, 0⟩

/-- The number without its fractional digits. -/
def trunc (x : Float) : Float :=
  match parts? x with
  | none => x
  | some p => if 0 ≤ p.exponent then x else Parts.toFloat ⟨p.negative, shift p.mantissa p.exponent, 0⟩

/-- What is left of a number without the whole number in it. Of an infinite number nothing is. -/
def fract (x : Float) : Float := x - trunc x

/-- The natural number to which a number is cut off, which is zero for a negative one. -/
def whole (x : Float) : Nat :=
  match parts? x with
  | none => 0
  | some p => if p.negative then 0 else shift p.mantissa p.exponent

/-- The exact remainder of a division that cuts the quotient off, with the sign of the dividend.
There is none by zero or of an infinite number. -/
def remainder (x y : Float) : Float :=
  match parts? x, parts? y with
  | some p, some q =>
    if q.mantissa = 0 then 0.0 / 0.0
    else
      let low := min p.exponent q.exponent
      let r := shift p.mantissa (p.exponent - low) % shift q.mantissa (q.exponent - low)
      Parts.toFloat ⟨p.negative, r, low⟩
  | some _, none => if y.isNaN then y else x
  | none, _ => 0.0 / 0.0

/-- The smaller number. The first of two equal ones, and the other one if one is not a number. -/
def least (x y : Float) : Float := if x.isNaN then y else if y < x then y else x

/-- The larger number. The first of two equal ones, and the other one if one is not a number. -/
def greatest (x y : Float) : Float := if x.isNaN then y else if x < y then y else x

end WorldScript.Number
