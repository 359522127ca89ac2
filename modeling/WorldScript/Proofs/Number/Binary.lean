import Mathlib.Tactic.Ring
import WorldScript.Number.Parts

/-! # Numbers as binary words

A normal number is `± mantissa * 2 ^ exponent` with a mantissa of 53 bits. It is kept as a word: a
sign bit, eleven bits of exponent, and the mantissa without its first bit.

* `toNat_pack`, `unpack_of_toNat`: the word of a normal number, and the number of such a word.
* `round_exact`: a number that has a mantissa of 53 bits is rounded to itself.
* `Normal.lt_iff`: normal numbers are ordered by exponent, then by mantissa. -/

namespace WorldScript.Number

open Float.Model (Format totalExponent UnpackedFloat)
open Float.Model.UnpackedFloat (Sign ExtendedMantissa roundWithAccuracy shiftToTargetExponent
  shiftToExponent decreaseExponent unpackMantissa unpackExponent unpackSign)

/-- The sign bit. -/
def signBit : Sign → ℕ
  | .positive => 0
  | .negative => 1

theorem signBit_le (sign : Sign) : signBit sign ≤ 1 := by cases sign <;> decide

theorem toNat_toBitVec (sign : Sign) : sign.toBitVec.toNat = signBit sign := by cases sign <;> rfl

/-- A mantissa of 53 bits, and an exponent in range. -/
structure Normal (c : ℕ) (e : ℤ) : Prop where
  low : 2 ^ 52 ≤ c
  high : c < 2 ^ 53
  least : -1074 ≤ e
  greatest : e ≤ 971

/-- The word of a normal number without its sign bit. -/
def word (c : ℕ) (e : ℤ) : ℕ := (e + 1075).toNat * 2 ^ 52 + c % 2 ^ 52

theorem Normal.pos {c : ℕ} {e : ℤ} (h : Normal c e) : 0 < c := Nat.two_pow_pos 52 |>.trans_le h.low

theorem Normal.log2_eq {c : ℕ} {e : ℤ} (h : Normal c e) : c.log2 = 52 :=
  (Nat.log2_eq_iff h.pos.ne').2 ⟨h.low, h.high⟩

theorem log2_mul_two_pow {m : ℕ} (hm : m ≠ 0) (s : ℕ) : (m * 2 ^ s).log2 = m.log2 + s := by
  rw [Nat.log2_eq_iff (Nat.mul_pos (Nat.pos_of_ne_zero hm) (Nat.two_pow_pos s)).ne']
  constructor
  · calc 2 ^ (m.log2 + s) = 2 ^ m.log2 * 2 ^ s := pow_add 2 _ s
      _ ≤ m * 2 ^ s := Nat.mul_le_mul_right _ (Nat.log2_self_le hm)
  · calc m * 2 ^ s < 2 ^ (m.log2 + 1) * 2 ^ s :=
        Nat.mul_lt_mul_of_pos_right Nat.lt_log2_self (Nat.two_pow_pos s)
      _ = 2 ^ (m.log2 + s + 1) := by ring

/-! ## Rounding what needs no rounding -/

theorem targetExponent_eq (total : ℤ) :
    Format.binary64.targetExponent total = max (total - 53) (-1074) := rfl

/-- A mantissa with zeros behind it is brought to the exponent it has without them. -/
theorem Normal.targetExponent_mul {c s : ℕ} {e t : ℤ} (h : Normal c t) (hs : e + s = t) :
    Format.binary64.targetExponent (totalExponent (c * 2 ^ s) e) = t := by
  have := h.least
  rw [targetExponent_eq, totalExponent, log2_mul_two_pow h.pos.ne', h.log2_eq]
  omega

/-- Zeros at the end of a mantissa are dropped without a trace in the residual bits. -/
theorem shiftRight_zeros (c s : ℕ) :
    (⟨c * 2 ^ s, false, false⟩ : ExtendedMantissa) >>> s = ⟨c, false, false⟩ := by
  change s.repeat ExtendedMantissa.shiftRightOne _ = _
  induction s generalizing c with
  | zero => rw [Nat.pow_zero, Nat.mul_one]; rfl
  | succ s ih =>
    have hsplit : c * 2 ^ (s + 1) = (c * 2) * 2 ^ s := by ring
    rw [hsplit, Nat.repeat, ih]
    simp [ExtendedMantissa.shiftRightOne]

theorem shiftToTargetExponent_zeros {c s : ℕ} {e t : ℤ} (h : Normal c t) (hs : e + s = t) :
    shiftToTargetExponent .binary64 (c * 2 ^ s) e .exact = (⟨c, false, false⟩, t) := by
  have hshift : (t - e).toNat = s := by omega
  simp only [shiftToTargetExponent, shiftToExponent, h.targetExponent_mul hs, hshift,
    ExtendedMantissa.ofMantissaAndAccuracy, shiftRight_zeros, hs]

theorem roundWithAccuracy_zeros {c s : ℕ} {e t : ℤ} (h : Normal c t) (hs : e + s = t)
    (sign : Sign) :
    roundWithAccuracy .binary64 sign (c * 2 ^ s) e .exact = .finite sign c t h.pos := by
  have hfirst := shiftToTargetExponent_zeros h hs
  have hround : (⟨c, false, false⟩ : ExtendedMantissa).roundedMantissa = c := rfl
  have hsecond : shiftToTargetExponent .binary64 c t .exact = (⟨c, false, false⟩, t) := by
    simpa using shiftToTargetExponent_zeros h (s := 0) (e := t) (by omega)
  rw [roundWithAccuracy, hfirst]
  dsimp only
  rw [hround, hsecond]
  exact dif_neg h.pos.ne'

/-- A number that has a mantissa of 53 bits is rounded to it, whether it is written with more digits
or with fewer. -/
theorem round_exact {c m : ℕ} {e t : ℤ} (h : Normal c t)
    (hm : m * 2 ^ (e - t).toNat = c * 2 ^ (t - e).toNat) (sign : Sign) :
    UnpackedFloat.round .binary64 sign m e = .finite sign c t h.pos := by
  have hpos : m ≠ 0 := by
    rintro rfl
    have := Nat.mul_pos h.pos (Nat.two_pow_pos (t - e).toNat)
    omega
  have hlog : m.log2 + (e - t).toNat = 52 + (t - e).toNat := by
    rw [← log2_mul_two_pow hpos, hm, log2_mul_two_pow h.pos.ne', h.log2_eq]
  have htarget : Format.binary64.targetExponent (totalExponent m e) = t := by
    have := h.least
    rw [targetExponent_eq, totalExponent]
    omega
  rw [UnpackedFloat.round, decreaseExponent, htarget, Nat.shiftLeft_eq, hm]
  exact roundWithAccuracy_zeros h (by omega) sign

/-! ## Words -/

theorem toNat_append_eq_add {m n : ℕ} (x : BitVec m) (y : BitVec n) :
    (x ++ y).toNat = x.toNat * 2 ^ n + y.toNat := by
  rw [BitVec.toNat_append, ← Nat.shiftLeft_add_eq_or_of_lt y.isLt, Nat.shiftLeft_eq]

theorem toNat_pack {c : ℕ} {e : ℤ} (h : Normal c e) (sign : Sign) :
    (UnpackedFloat.pack .binary64 (.finite sign c e h.pos)).toNat =
      signBit sign * 2 ^ 63 + word c e := by
  have hlow := h.low
  have hhigh := h.high
  have hleast := h.least
  have hgreatest := h.greatest
  have hfinite : ¬ 2 ^ Format.binary64.exponentBits ≤ (e + Format.binary64.exponentBias +
      Format.binary64.mantissaBitsWithoutImplicit).toNat + 1 := by
    change ¬ 2048 ≤ (e + 1023 + 52).toNat + 1
    omega
  have hbits : c.log2 + 1 = Format.binary64.mantissaBits := by
    rw [h.log2_eq]
    rfl
  have hpack : UnpackedFloat.pack .binary64 (.finite sign c e h.pos) =
      sign.toBitVec ++ BitVec.ofNat 11 (e + 1023 + 52).toNat ++ BitVec.ofNat 52 c :=
    (if_neg hfinite).trans (if_pos hbits)
  rw [hpack]
  simp only [toNat_append_eq_add, toNat_toBitVec, BitVec.toNat_ofNat, word]
  omega

section Fields
variable (b : BitVec Format.binary64.numBits)

theorem toNat_unpackMantissa : (unpackMantissa b).toNat = b.toNat % 2 ^ 52 := by
  change b.toNat >>> 0 % 2 ^ 52 = _
  rw [Nat.shiftRight_zero]

theorem toNat_unpackExponent : (unpackExponent b).toNat = b.toNat / 2 ^ 52 % 2 ^ 11 := by
  change b.toNat >>> 52 % 2 ^ 11 = _
  rw [Nat.shiftRight_eq_div_pow]

theorem toNat_unpackSign : (unpackSign b).toNat = b.toNat / 2 ^ 63 % 2 := by
  change b.toNat >>> 63 % 2 ^ 1 = _
  rw [Nat.shiftRight_eq_div_pow]

end Fields

theorem fields_of_toNat {b : BitVec Format.binary64.numBits} {sign : Sign} {c : ℕ} {e : ℤ}
    (h : Normal c e) (hb : b.toNat = signBit sign * 2 ^ 63 + word c e) :
    unpackSign b = sign.toBitVec ∧ (unpackExponent b).toNat = (e + 1075).toNat ∧
      (unpackMantissa b).toNat = c % 2 ^ 52 := by
  have hleast := h.least
  have hgreatest := h.greatest
  have hbit := signBit_le sign
  simp only [word] at hb
  refine ⟨?_, ?_, ?_⟩
  · apply BitVec.eq_of_toNat_eq
    rw [toNat_unpackSign, toNat_toBitVec, hb]
    omega
  · rw [toNat_unpackExponent, hb]
    omega
  · rw [toNat_unpackMantissa, hb]
    omega

theorem unpack_of_toNat {b : BitVec Format.binary64.numBits} {sign : Sign} {c : ℕ} {e : ℤ}
    (h : Normal c e) (hb : b.toNat = signBit sign * 2 ^ 63 + word c e) :
    UnpackedFloat.unpack .binary64 b = .finite sign c e h.pos := by
  have hlow := h.low
  have hhigh := h.high
  have hleast := h.least
  have hgreatest := h.greatest
  obtain ⟨hsign, hexp, hmantissa⟩ := fields_of_toNat h hb
  have hfinite : unpackExponent b ≠ -1#11 := by
    intro heq
    have : (e + 1075).toNat = 2047 := hexp.symm.trans (congrArg BitVec.toNat heq)
    omega
  have hnormal : unpackExponent b ≠ 0#11 := by
    intro heq
    have : (e + 1075).toNat = 0 := hexp.symm.trans (congrArg BitVec.toNat heq)
    omega
  have hfull : (1#1 ++ unpackMantissa b).toNat = c := by
    rw [toNat_append_eq_add, hmantissa]
    change 1 * 2 ^ 52 + c % 2 ^ 52 = c
    omega
  refine ((if_neg hfinite).trans (if_neg hnormal)).trans ?_
  rw [UnpackedFloat.finite.injEq]
  refine ⟨?_, hfull, ?_⟩
  · rw [hsign]
    cases sign <;> rfl
  · rw [hexp]
    change ((e + 1075).toNat : ℤ) - (1023 + 52) = e
    omega

/-! ## Normal numbers -/

theorem le_iff_unpack {x y : Float} : x ≤ y ↔ x.toModel.unpack.le y.toModel.unpack = true :=
  decide_eq_true_iff

theorem lt_iff_unpack {x y : Float} : x < y ↔ x.toModel.unpack.lt y.toModel.unpack = true :=
  decide_eq_true_iff

theorem le_of_lt {x y : Float} (h : x < y) : x ≤ y := by
  rw [lt_iff_unpack, UnpackedFloat.lt, beq_iff_eq] at h
  rw [le_iff_unpack, UnpackedFloat.le, h]
  rfl

theorem eq_of_toBits {x y : Float} (h : x.toBits = y.toBits) : x = y := by
  obtain ⟨⟨b, hb⟩⟩ := x
  obtain ⟨⟨b', hb'⟩⟩ := y
  cases (h : b = b')
  rfl

/-- The positive number `c * 2 ^ e`. -/
def Normal.number {c : ℕ} {e : ℤ} (h : Normal c e) : Float :=
  .ofModel (.pack (.finite .positive c e h.pos))

namespace Normal

variable {c c' : ℕ} {e e' : ℤ} (h : Normal c e) (h' : Normal c' e')

theorem unpack_number : h.number.toModel.unpack = .finite .positive c e h.pos :=
  unpack_of_toNat h (toNat_pack h .positive)

theorem number_congr (hc : c = c') (he : e = e') : h.number = h'.number := by
  subst hc he
  rfl

theorem eq_number {x : Float} (hx : x.toBits.toNat = word c e) : x = h.number := by
  apply eq_of_toBits
  apply UInt64.toNat_inj.1
  have hpack := toNat_pack h .positive
  rw [signBit, Nat.zero_mul, Nat.zero_add] at hpack
  exact hx.trans hpack.symm

theorem lt_iff : h.number < h'.number ↔ e < e' ∨ e = e' ∧ c < c' := by
  rw [lt_iff_unpack, unpack_number, unpack_number]
  change (some ((compare e e').then (compare c c')) == some .lt) = true ↔ _
  rw [beq_iff_eq, Option.some_inj, Ordering.then_eq_lt, Int.compare_eq_lt, Int.compare_eq_eq,
    Nat.compare_eq_lt]

end Normal

end WorldScript.Number
