import Mathlib.Algebra.Order.Field.Power
import Mathlib.Tactic.FieldSimp
import Mathlib.Tactic.Positivity
import WorldScript.Proofs.Number.Whole

/-! # Values of numbers, and rounded numbers

* `natural?_eq_some_iff`: a number is the natural number `k` when its parts have exactly that value.
* `round_cases`: a rounded number is below one or not a number, or a whole number to `2 ^ 53`, or
  greater than that. -/

namespace WorldScript.Number

open Float.Model (UnpackedFloat)
open Float.Model.UnpackedFloat (Sign unpackSign unpackExponent)

/-! ## The value of a number -/

/-- The rational number that the parts stand for. -/
def Parts.value (p : Parts) : ℚ := (if p.negative then -1 else 1) * p.mantissa * 2 ^ p.exponent

namespace Parts

variable {p : Parts}

theorem value_of_neg (hsign : p.negative = true) : p.value = -(p.mantissa * 2 ^ p.exponent) := by
  rw [value, if_pos hsign, neg_one_mul, neg_mul]

theorem value_neg (hsign : p.negative = true) (hm : p.mantissa ≠ 0) : p.value < 0 := by
  have hpos : 0 < (p.mantissa : ℚ) * 2 ^ p.exponent := by positivity
  rw [value_of_neg hsign]
  exact neg_lt_zero.2 hpos

theorem value_of_not_neg (h : ¬ (p.negative = true ∧ p.mantissa ≠ 0)) :
    p.value = p.mantissa * 2 ^ p.exponent := by
  rw [value]
  split_ifs with hsign
  · have hm : p.mantissa = 0 := by
      by_contra hm
      exact h ⟨hsign, hm⟩
    simp [hm]
  · rw [one_mul]

theorem mul_zpow_eq_iff_of_nonneg {m k : ℕ} {e : ℤ} (he : 0 ≤ e) :
    (m : ℚ) * 2 ^ e = k ↔ m * 2 ^ e.toNat = k := by
  lift e to ℕ using he
  rw [zpow_natCast, Int.toNat_natCast]
  norm_cast

theorem mul_zpow_eq_iff_of_neg {m k : ℕ} {e : ℤ} (he : e < 0) :
    (m : ℚ) * 2 ^ e = k ↔ m % 2 ^ (-e).toNat = 0 ∧ m / 2 ^ (-e).toNat = k := by
  obtain ⟨u, rfl⟩ : ∃ u : ℕ, e = -u := ⟨(-e).toNat, by omega⟩
  have hpos : 0 < 2 ^ u := Nat.two_pow_pos u
  have hcast : (m : ℚ) * 2 ^ (-(u : ℤ)) = k ↔ m = k * 2 ^ u := by
    rw [zpow_neg, zpow_natCast, ← div_eq_mul_inv, div_eq_iff (by positivity)]
    norm_cast
  rw [hcast, neg_neg, Int.toNat_natCast]
  constructor
  · rintro rfl
    exact ⟨Nat.mul_mod_left _ _, Nat.mul_div_cancel _ hpos⟩
  · rintro ⟨hmod, rfl⟩
    exact (Nat.div_mul_cancel (Nat.dvd_of_mod_eq_zero hmod)).symm

end Parts

/-- The natural number that a number is. -/
def natural? (x : Float) : Option Nat :=
  match parts? x with
  | none => none
  | some p =>
    let unit := Nat.pow 2 (-p.exponent).toNat
    if p.negative && p.mantissa != 0 then none
    else if 0 ≤ p.exponent then some (shift p.mantissa p.exponent)
    else if p.mantissa % unit == 0 then some (p.mantissa / unit)
    else none

/-- A number is a natural number exactly when its value is. -/
theorem natural?_eq_some_iff {x : Float} {k : ℕ} :
    natural? x = some k ↔ ∃ p, parts? x = some p ∧ p.value = k := by
  rw [natural?]
  cases parts? x with
  | none => simp
  | some p =>
    simp only [Option.some_inj, exists_eq_left']
    by_cases hsign : p.negative = true ∧ p.mantissa ≠ 0
    · have hneg := Parts.value_neg hsign.1 hsign.2
      have hk : (0 : ℚ) ≤ k := Nat.cast_nonneg k
      have hne : p.value ≠ k := (hneg.trans_le hk).ne
      simp [hsign.1, hsign.2, hne]
    · rw [Parts.value_of_not_neg hsign, if_neg (by simpa using hsign)]
      by_cases he : 0 ≤ p.exponent
      · rw [if_pos he, Option.some_inj, shift, if_pos he, Parts.mul_zpow_eq_iff_of_nonneg he]
        rfl
      · rw [if_neg he, Parts.mul_zpow_eq_iff_of_neg (not_le.1 he)]
        split_ifs with hmod
        · have hmod' : p.mantissa % 2 ^ (-p.exponent).toNat = 0 := beq_iff_eq.1 hmod
          simp only [Option.some_inj, hmod', true_and]
          rfl
        · have hmod' : p.mantissa % 2 ^ (-p.exponent).toNat ≠ 0 := fun h => hmod (beq_iff_eq.2 h)
          simp [hmod']

/-! ## Rounding -/

/-- The sign, power and fraction of a word. -/
theorem toBits_split (x : Float) :
    x.toBits.toNat = x.toBits.toNat / 2 ^ 63 * 2 ^ 63 +
      x.toBits.toNat / 2 ^ 52 % 2 ^ 11 * 2 ^ 52 + x.toBits.toNat % 2 ^ 52 := by omega

theorem word_eq {f : ℕ} (hf : f < 2 ^ 52) (p : ℕ) :
    word (f + 2 ^ 52) (p - 1075) = p * 2 ^ 52 + f := by
  have hpower : ((p : ℤ) - 1075 + 1075).toNat = p := by omega
  rw [word, hpower]
  omega

theorem parts?_eq_some {x : Float} {p : Parts} (h : parts? x = some p) :
    p.negative = isNegative x ∧ x.toBits.toNat / 2 ^ 52 % 2 ^ 11 < 2047 ∧
      (x.toBits.toNat / 2 ^ 52 % 2 ^ 11 = 0 ∧ p.mantissa = x.toBits.toNat % 2 ^ 52 ∧
          p.exponent = -1074 ∨
        0 < x.toBits.toNat / 2 ^ 52 % 2 ^ 11 ∧ p.mantissa = x.toBits.toNat % 2 ^ 52 + 2 ^ 52 ∧
          p.exponent = (x.toBits.toNat / 2 ^ 52 % 2 ^ 11 : ℕ) - 1075) := by
  have hpower : x.toBits.toNat / 2 ^ 52 % 2 ^ 11 < 2048 := Nat.mod_lt _ (by omega)
  change (if x.toBits.toNat / 2 ^ 52 % 2 ^ 11 = 2047 then none
    else if x.toBits.toNat / 2 ^ 52 % 2 ^ 11 = 0 then
      some ⟨isNegative x, x.toBits.toNat % 2 ^ 52, -1074⟩
    else some ⟨isNegative x, x.toBits.toNat % 2 ^ 52 + 2 ^ 52,
      (x.toBits.toNat / 2 ^ 52 % 2 ^ 11 : ℕ) - 1075⟩) = some p at h
  split_ifs at h with hinf hzero
  · cases Option.some.inj h
    exact ⟨rfl, by omega, .inl ⟨hzero, rfl, rfl⟩⟩
  · cases Option.some.inj h
    exact ⟨rfl, by omega, .inr ⟨by omega, rfl, rfl⟩⟩

/-- Every word that stands for a number has the sign of its sign bit. -/
theorem unpack_cases (b : BitVec Float.Model.Format.binary64.numBits) :
    UnpackedFloat.unpack .binary64 b = .notANumber ∨
      UnpackedFloat.unpack .binary64 b = .infinity (.ofBitVec (unpackSign b)) ∨
      UnpackedFloat.unpack .binary64 b = .zero (.ofBitVec (unpackSign b)) ∨
      ∃ c e hc, UnpackedFloat.unpack .binary64 b = .finite (.ofBitVec (unpackSign b)) c e hc := by
  by_cases htop : unpackExponent b = -1#11
  · by_cases hzero : UnpackedFloat.unpackMantissa b = 0#52
    · exact .inr (.inl ((if_pos htop).trans (if_pos hzero)))
    · exact .inl ((if_pos htop).trans (if_neg hzero))
  · by_cases hbottom : unpackExponent b = 0#11
    · by_cases hzero : UnpackedFloat.unpackMantissa b = 0#52
      · exact .inr (.inr (.inl ((if_neg htop).trans ((if_pos hbottom).trans (dif_pos hzero)))))
      · exact .inr (.inr (.inr
          ⟨_, _, _, (if_neg htop).trans ((if_pos hbottom).trans (dif_neg hzero))⟩))
    · exact .inr (.inr (.inr ⟨_, _, _, (if_neg htop).trans (if_neg hbottom)⟩))

/-- The sign of a number. -/
def signOf (negative : Bool) : Sign := if negative then .negative else .positive

theorem ofBitVec_unpackSign (x : Float) :
    Sign.ofBitVec (@unpackSign .binary64 x.toBits.toBitVec) = signOf (isNegative x) := by
  have hlt : x.toBits.toNat < 2 ^ 64 := x.toBits.toNat_lt
  have hbit := toNat_unpackSign x.toBits.toBitVec
  change _ = x.toBits.toNat / 2 ^ 63 % 2 at hbit
  cases hneg : isNegative x with
  | true =>
    have hx : x.toBits.toNat / 2 ^ 63 = 1 := beq_iff_eq.1 hneg
    refine if_neg fun hzero => ?_
    rw [hzero] at hbit
    change 0 = _ at hbit
    omega
  | false =>
    have hx : x.toBits.toNat / 2 ^ 63 ≠ 1 := beq_eq_false_iff_ne.1 hneg
    refine if_pos (BitVec.eq_of_toNat_eq (hbit.trans ?_))
    change _ = 0
    omega

theorem not_one_le_of_isNegative {x : Float} (h : isNegative x = true) : ¬ 1.0 ≤ x := by
  have hsign := ofBitVec_unpackSign x
  rw [h] at hsign
  rw [le_iff_unpack, one_eq, Normal.unpack_number]
  change ¬ UnpackedFloat.le _ (UnpackedFloat.unpack .binary64 x.toBits.toBitVec) = true
  have hcases := unpack_cases x.toBits.toBitVec
  rw [hsign] at hcases
  rcases hcases with h | h | h | ⟨c, e, hc, h⟩
  all_goals
    rw [h]
    exact Bool.false_ne_true

theorem power_of_parts?_eq_none {x : Float} (h : parts? x = none) :
    x.toBits.toNat / 2 ^ 52 % 2 ^ 11 = 2047 := by
  by_contra hne
  change (if x.toBits.toNat / 2 ^ 52 % 2 ^ 11 = 2047 then none else _) = none at h
  rw [if_neg hne] at h
  split_ifs at h

theorem unpack_of_parts?_eq_none {x : Float} (h : parts? x = none) :
    x.toModel.unpack = .notANumber ∨ ∃ sign, x.toModel.unpack = .infinity sign := by
  have hpower := power_of_parts?_eq_none h
  have hexponent : @unpackExponent .binary64 x.toBits.toBitVec = -1#11 := by
    apply BitVec.eq_of_toNat_eq
    exact (toNat_unpackExponent x.toBits.toBitVec).trans hpower
  change UnpackedFloat.unpack .binary64 x.toBits.toBitVec = _ ∨
    ∃ sign, UnpackedFloat.unpack .binary64 x.toBits.toBitVec = _
  by_cases hmantissa : @UnpackedFloat.unpackMantissa .binary64 x.toBits.toBitVec = 0#52
  · exact .inr ⟨_, (if_pos hexponent).trans (if_pos hmantissa)⟩
  · exact .inl ((if_pos hexponent).trans (if_neg hmantissa))

theorem Scaled.toFloat_parts {k c t : ℕ} (h : Scaled k c t) (hk : k < 2 ^ 53) (negative : Bool) :
    (Parts.toFloat ⟨negative, k, 0⟩).toModel =
      .pack (.finite (if negative then .negative else .positive) c (t - 52) h.normal.pos) := by
  have ht := h.le_of_lt hk
  have hshift : shift k (52 - k.log2) = c := by
    have hsub : (52 - (t : ℤ)).toNat = 52 - t := by omega
    rw [h.log2_eq, shift, if_pos (by omega), hsub]
    exact h.mul_eq ht
  have htop : (k.log2 : ℤ) + 0 = t := by rw [h.log2_eq, Int.add_zero]
  have hword : (t + 1023 : ℤ).toNat * Nat.pow 2 52 + (c - Nat.pow 2 52) = word c (t - 52) := by
    have hpow : Nat.pow 2 52 = 4503599627370496 := rfl
    have := h.normal.low
    have := h.normal.high
    rw [hpow, word]
    omega
  have hfloat : Parts.toFloat ⟨negative, k, 0⟩ =
      .ofBits (.ofNat ((if negative then Nat.pow 2 63 else 0) + word c (t - 52))) := by
    have hhigh : ¬ (1023 : ℤ) < t := by omega
    have hlow : ¬ (t : ℤ) < -1022 := by omega
    simp only [Parts.toFloat, if_neg h.pos.ne', htop, hshift, if_neg hhigh, if_neg hlow, hword]
  rw [hfloat]
  apply congrArg Float.Model.pack
  apply unpack_of_toNat h.normal
  have hlt : word c (t - 52) < 2 ^ 63 := by
    simp only [word]
    omega
  refine UInt64.toNat_ofNat'.trans ?_
  cases negative with
  | false =>
    simp only [Bool.false_eq_true, if_false, signBit]
    omega
  | true =>
    have hpow : Nat.pow 2 63 = 9223372036854775808 := rfl
    simp only [if_true, signBit, hpow]
    omega

theorem mantissa_lt {x : Float} {p : Parts} (h : parts? x = some p) : p.mantissa < 2 ^ 53 := by
  obtain ⟨-, -, ⟨-, hm, -⟩ | ⟨-, hm, -⟩⟩ := parts?_eq_some h <;> omega

/-- A positive number with all bits of a mantissa is normal. -/
theorem eq_number_of_parts {x : Float} {p : Parts} (h : parts? x = some p)
    (hsign : p.negative = false) (hbits : 2 ^ 52 ≤ p.mantissa) :
    ∃ hn : Normal p.mantissa p.exponent, x = hn.number := by
  obtain ⟨hneg, hpower, ⟨-, hm, -⟩ | ⟨hpos, hm, he'⟩⟩ := parts?_eq_some h
  · omega
  · have hn : Normal p.mantissa p.exponent := ⟨by omega, by omega, by omega, by omega⟩
    have hbit : x.toBits.toNat / 2 ^ 63 = 0 := by
      have hlt : x.toBits.toNat < 2 ^ 64 := x.toBits.toNat_lt
      have hne : x.toBits.toNat / 2 ^ 63 ≠ 1 := beq_eq_false_iff_ne.1 (hneg.symm.trans hsign)
      omega
    have hsplit := toBits_split x
    refine ⟨hn, hn.eq_number ?_⟩
    rw [hbit, Nat.zero_mul, Nat.zero_add] at hsplit
    rw [hm, he', word_eq (Nat.mod_lt _ (Nat.two_pow_pos 52))]
    exact hsplit

/-- A whole number to `2 ^ 53`, or a greater one. -/
theorem Normal.number_cases {c : ℕ} {e : ℤ} (h : Normal c e) (he : 0 ≤ e) :
    (∃ n, 1 ≤ n ∧ n ≤ 2 ^ 53 ∧ h.number = Float.ofNat n) ∨ Float.ofNat (2 ^ 53) < h.number := by
  have hlow := h.low
  have hhigh := h.high
  have htop : Scaled (2 ^ 53) (2 ^ 52) 53 := ⟨⟨by omega, by omega, by omega, by omega⟩, by omega⟩
  rcases he.eq_or_lt with rfl | hpos
  · have hs : Scaled c c 52 := ⟨h, rfl⟩
    exact .inl ⟨c, by omega, by omega, hs.ofNat_eq.symm⟩
  · rw [htop.ofNat_eq, Normal.lt_iff]
    by_cases hlt : 1 < e ∨ e = 1 ∧ 2 ^ 52 < c
    · exact .inr (by omega)
    · refine .inl ⟨2 ^ 53, by omega, le_rfl, ?_⟩
      rw [htop.ofNat_eq]
      exact h.number_congr htop.normal (by omega) (by omega)

/-- The rounded quotient of a mantissa has fewer than 53 bits. -/
theorem rounded_lt {m : ℕ} {e : ℤ} (hm : m < 2 ^ 53) (he : e < 0) :
    (m + Nat.pow 2 (-e).toNat / 2) / Nat.pow 2 (-e).toNat < 2 ^ 53 := by
  obtain ⟨s, hs⟩ : ∃ s, (-e).toNat = s + 1 := ⟨(-e).toNat - 1, by omega⟩
  have hunit : Nat.pow 2 (-e).toNat = 2 ^ s * 2 := by rw [hs]; exact pow_succ 2 s
  have hpos : 0 < 2 ^ s := Nat.two_pow_pos s
  rw [hunit, Nat.div_lt_iff_lt_mul (by omega)]
  omega

theorem toFloat_cases {q : ℕ} (hq : q < 2 ^ 53) (negative : Bool) :
    ¬ 1.0 ≤ Parts.toFloat ⟨negative, q, 0⟩ ∨
      1 ≤ q ∧ Parts.toFloat ⟨negative, q, 0⟩ = Float.ofNat q := by
  rcases Nat.eq_zero_or_pos q with rfl | hpos
  · left
    cases negative <;> decide
  · obtain ⟨c, t, hs⟩ := exists_scaled hpos hq.le
    have hmodel := hs.toFloat_parts hq negative
    cases negative with
    | true =>
      left
      have hunpack := unpack_of_toNat hs.normal (toNat_pack hs.normal .negative)
      rw [le_iff_unpack, one_eq, Normal.unpack_number, hmodel]
      change ¬ UnpackedFloat.le _ (UnpackedFloat.unpack .binary64
        (UnpackedFloat.pack .binary64 (.finite .negative c (t - 52) hs.normal.pos))) = true
      rw [hunpack]
      exact Bool.false_ne_true
    | false =>
      right
      exact ⟨hpos, (congrArg Float.ofModel hmodel).trans hs.ofNat_eq.symm⟩

/-- A rounded number is below one or no number, or a whole number to `2 ^ 53`, or greater. -/
theorem round_cases (x : Float) :
    ¬ 1.0 ≤ round x ∨ (∃ n, 1 ≤ n ∧ n ≤ 2 ^ 53 ∧ round x = Float.ofNat n) ∨
      Float.ofNat (2 ^ 53) < round x := by
  rw [round]
  cases hp : parts? x with
  | none =>
    rcases unpack_of_parts?_eq_none hp with hnan | ⟨sign, hinf⟩
    · left
      rw [le_iff_unpack, hnan, one_eq, Normal.unpack_number]
      decide
    · cases sign with
      | negative =>
        left
        rw [le_iff_unpack, hinf, one_eq, Normal.unpack_number]
        decide
      | positive =>
        right; right
        rw [lt_iff_unpack, hinf]
        decide
  | some p =>
    by_cases he : 0 ≤ p.exponent
    · simp only [if_pos he]
      cases hsign : p.negative with
      | true => exact .inl (not_one_le_of_isNegative ((parts?_eq_some hp).1.symm.trans hsign))
      | false =>
        have hbits : 2 ^ 52 ≤ p.mantissa := by
          obtain ⟨-, -, ⟨-, -, he'⟩ | ⟨-, hm, -⟩⟩ := parts?_eq_some hp <;> omega
        obtain ⟨hn, rfl⟩ := eq_number_of_parts hp hsign hbits
        exact .inr (hn.number_cases he)
    · simp only [if_neg he]
      have hlt := rounded_lt (mantissa_lt hp) (not_le.1 he)
      rcases toFloat_cases hlt p.negative with hbelow | ⟨hpos, heq⟩
      · exact .inl hbelow
      · exact .inr (.inl ⟨_, hpos, hlt.le, heq⟩)

end WorldScript.Number
