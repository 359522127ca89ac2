import WorldScript.Number.Shortest

/-! # Numbers as text

Two layouts of the shortest decimal. `text` writes every number positionally. `listed`, which
listings use, keeps a digit after the point and writes very small and very large numbers with an
exponent. -/

namespace WorldScript.Number

/-- How the shortest decimal is laid out. -/
structure Layout where
  /-- Written after a whole number. -/
  wholeEnd : String
  /-- Numbers below `10 ^ low` or from `10 ^ high` on are written with an exponent. -/
  range : Option (Int × Int)

/-- Every number positionally, a whole number without a point. -/
def Layout.plain : Layout := ⟨"", none⟩

/-- Positional from `1e-4` up to `1e16`, a whole number with `.0`. -/
def Layout.listing : Layout := ⟨".0", some (-4, 16)⟩

/-- `n` zeros. -/
def zeros (n : Nat) : List Char := List.replicate n '0'

/-- A decimal written out with all its places. -/
def Layout.positional (l : Layout) (d : Decimal) : List Char :=
  if d.point ≤ 0 then ['0', '.'] ++ zeros (-d.point).toNat ++ d.digits
  else if d.digits.length ≤ d.point then
    d.digits ++ zeros (d.point.toNat - d.digits.length) ++ l.wholeEnd.toList
  else d.digits.take d.point.toNat ++ ['.'] ++ d.digits.drop d.point.toNat

/-- A decimal with one digit before the point and an exponent. -/
def scientific (d : Decimal) : List Char :=
  d.digits.take 1 ++ (if d.digits.length ≤ 1 then [] else '.' :: d.digits.drop 1) ++
    ['e'] ++ (toString (d.point - 1)).toList

/-- A decimal in the form that its size asks for. -/
def Layout.decimal (l : Layout) (d : Decimal) : List Char :=
  match l.range with
  | none => l.positional d
  | some (low, high) =>
    if low < d.point && d.point ≤ high then l.positional d else scientific d

/-- A number in the given layout. -/
def Layout.render (l : Layout) (x : Float) : String :=
  let sign := if isNegative x then ['-'] else []
  match parts? x with
  | none => if x.isNaN then "NaN" else String.ofList (sign ++ ['i', 'n', 'f'])
  | some p =>
    if p.mantissa = 0 then String.ofList (sign ++ '0' :: l.wholeEnd.toList)
    else String.ofList (sign ++ l.decimal (shortest p.mantissa p.exponent))

/-- A number written positionally with the fewest digits. -/
def text (x : Float) : String := Layout.plain.render x

/-- A number as listings write it. -/
def listed (x : Float) : String := Layout.listing.render x

/-- A number as values show it: a whole number of fewer than sixteen digits as an integer, so
that a negative zero has no sign. -/
def shown (x : Float) : String := if x == 0.0 then "0" else text x

end WorldScript.Number
