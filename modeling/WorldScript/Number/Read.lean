/-! # Reading numbers

A number is an optional sign and either a decimal (digits with at most one point among them, at
least one digit, and an optional exponent) or one of the words `inf`, `infinity` and `nan` in any
case. The decimal is rounded to the nearest number. -/

namespace WorldScript.Number

/-- The whole number that a list of digits writes. -/
def ofDigits (ds : List Char) : Nat := ds.foldl (fun n c => 10 * n + (c.toNat - 48)) 0

/-- `m * 10 ^ e`, rounded. Far outside the range of numbers the exponent alone decides. -/
def ofDecimal (m : Nat) (e : Int) : Float :=
  let size := (Nat.toDigits 10 m).length + e
  if m = 0 then 0.0
  else if 400 < size then 1.0 / 0.0
  else if size < -400 then 0.0
  else Float.ofScientific m (e < 0) e.natAbs

/-- The exponent at the end of a decimal, `0` if there is none. -/
def exponent? (s : List Char) : Option Int :=
  match s with
  | [] => some 0
  | c :: rest =>
    if c = 'e' || c = 'E' then
      let (negative, ds) :=
        match rest with
        | '-' :: ds => (true, ds)
        | '+' :: ds => (false, ds)
        | ds => (false, ds)
      if ds.isEmpty || ds.any (!·.isDigit) then none
      else some (if negative then -(ofDigits ds : Int) else ofDigits ds)
    else none

/-- A number without a sign. -/
def readUnsigned? (s : List Char) : Option Float :=
  let word := String.ofList (s.map Char.toLower)
  if word = "inf" || word = "infinity" then some (1.0 / 0.0)
  else if word = "nan" then some (0.0 / 0.0)
  else
    let whole := s.takeWhile Char.isDigit
    let (fraction, rest) :=
      match s.dropWhile Char.isDigit with
      | '.' :: r => (r.takeWhile Char.isDigit, r.dropWhile Char.isDigit)
      | r => ([], r)
    if whole.isEmpty && fraction.isEmpty then none
    else
      (exponent? rest).map fun e =>
        ofDecimal (ofDigits (whole ++ fraction)) (e - fraction.length)

/-- The number that a text writes, if it writes one. -/
def read? (s : List Char) : Option Float :=
  match s with
  | '-' :: r => (readUnsigned? r).map (-·)
  | '+' :: r => readUnsigned? r
  | r => readUnsigned? r

end WorldScript.Number
