import WorldScript.Proofs.Number.Binary

/-! # Whole numbers

Whole numbers to `2 ^ 53` are normal numbers, and one is added to them as to natural numbers.

* `Scaled.ofNat_eq`: the conversion of a natural number.
* `ofNat_add_one`: adding one. -/

namespace WorldScript.Number

open Float.Model (Format UnpackedFloat)
open Float.Model.UnpackedFloat (roundWithAccuracy)

theorem normalize_natCast {m : ℕ} (hm : 0 < m) (e : ℤ) :
    UnpackedFloat.normalize .binary64 m e .positive = .round .binary64 .positive m e := by
  have hpos : compare (m : ℤ) 0 = .gt := Int.compare_eq_gt.2 (by omega)
  simp only [UnpackedFloat.normalize, hpos, Int.toNat_natCast]

/-- Positive numbers are added at the smaller of their exponents. -/
theorem add_positive {a b : ℕ} (e f : ℤ) (ha : 0 < a) (hb : 0 < b) :
    UnpackedFloat.add .binary64 (.finite .positive a e ha) (.finite .positive b f hb) =
      .normalize .binary64 ((a <<< (e - min e f).toNat : ℕ) + (b <<< (f - min e f).toNat : ℕ))
        (min e f) .positive := rfl

/-- A natural number of more than 53 bits is rounded. -/
theorem ofNat_eq_roundWithAccuracy {k : ℕ} (hk : 2 ^ 53 ≤ k) :
    Float.ofNat k =
      .ofModel (.pack (roundWithAccuracy .binary64 .positive (k * 2 ^ 53) (-53) .exact)) := by
  have hslow : Float.ofNat k = .ofModel (Float.Model.ofScientific k 0) :=
    dif_neg fun h => absurd h.1 (not_lt.2 hk)
  have hsmall : ¬ (0 : ℤ) < -(2 ^ Format.binary64.exponentBits + k.log2) := by
    change ¬ (0 : ℤ) < -(2048 + k.log2)
    omega
  rw [hslow, Float.Model.ofScientific, UnpackedFloat.ofScientific, dif_neg (by omega),
    if_neg (by decide), if_neg hsmall, if_pos (by decide)]
  change Float.ofModel
    (.pack (roundWithAccuracy .binary64 .positive (k <<< 53 * 1) (-53 + 0) .exact)) = _
  rw [Nat.shiftLeft_eq, Nat.mul_one]
  rfl

/-- The whole number `k` is the normal number `c * 2 ^ (t - 52)`. -/
structure Scaled (k c t : ℕ) : Prop where
  normal : Normal c (t - 52)
  eq : c * 2 ^ t = k * 2 ^ 52

theorem exists_scaled {k : ℕ} (hk : 0 < k) (hk' : k ≤ 2 ^ 53) : ∃ c t, Scaled k c t := by
  rcases hk'.lt_or_eq with hlt | rfl
  · have hlog : k.log2 < 53 := (Nat.log2_lt hk.ne').2 hlt
    have hpow (a : ℕ) : 2 ^ (k.log2 + a) * 2 ^ (52 - k.log2) = 2 ^ (52 + a) := by
      rw [← pow_add]
      congr 1
      omega
    refine ⟨k * 2 ^ (52 - k.log2), k.log2, ⟨?_, ?_, by omega, by omega⟩, ?_⟩
    · rw [← hpow 0]
      exact Nat.mul_le_mul_right _ (Nat.log2_self_le hk.ne')
    · rw [← hpow 1]
      exact Nat.mul_lt_mul_of_pos_right Nat.lt_log2_self (Nat.two_pow_pos _)
    · rw [Nat.mul_assoc, ← pow_add]
      congr 2
      omega
  · exact ⟨2 ^ 52, 53, ⟨by omega, by omega, by omega, by omega⟩, by omega⟩

theorem normal_one : Normal (2 ^ 52) (-52) := ⟨by omega, by omega, by omega, by omega⟩

theorem one_eq : (1.0 : Float) = normal_one.number := rfl

namespace Scaled

variable {k c t : ℕ} (h : Scaled k c t)
include h

theorem pos : 0 < k := by
  have := Nat.mul_pos h.normal.pos (Nat.two_pow_pos t)
  rw [h.eq] at this
  omega

theorem log2_eq : k.log2 = t := by
  have hlog : (c * 2 ^ t).log2 = (k * 2 ^ 52).log2 := congrArg Nat.log2 h.eq
  rw [log2_mul_two_pow h.normal.pos.ne', log2_mul_two_pow h.pos.ne', h.normal.log2_eq] at hlog
  omega

theorem le_of_lt (hk : k < 2 ^ 53) : t ≤ 52 := by
  have := (Nat.log2_lt h.pos.ne').2 hk
  rw [h.log2_eq] at this
  omega

theorem mul_eq (ht : t ≤ 52) : k * 2 ^ (52 - t) = c := by
  apply Nat.eq_of_mul_eq_mul_right (Nat.two_pow_pos t)
  rw [h.eq, Nat.mul_assoc, ← pow_add]
  congr 2
  omega

/-- The conversion of a word. -/
theorem toFloat_eq (hk : k < 2 ^ 53) : k.toUInt64.toFloat = h.normal.number := by
  have hword : k.toUInt64.toNat = k := UInt64.toNat_ofNat_of_lt' (hk.trans (by decide))
  have ht := h.le_of_lt hk
  have hround : UnpackedFloat.round .binary64 .positive k 0 =
      .finite .positive c (t - 52) h.normal.pos := by
    apply round_exact h.normal
    have hleft : (0 - ((t : ℤ) - 52)).toNat = 52 - t := by omega
    have hright : ((t : ℤ) - 52 - 0).toNat = 0 := by omega
    rw [hleft, hright, h.mul_eq ht, Nat.pow_zero, Nat.mul_one]
  change Float.ofModel
    (.pack (UnpackedFloat.normalize .binary64 (k.toUInt64.toNat : ℤ) 0 .positive)) = _
  rw [hword, normalize_natCast h.pos, hround]
  rfl

theorem ofNat_eq : Float.ofNat k = h.normal.number := by
  by_cases hk : k < 2 ^ 53
  · have hfast : Float.ofNat k = k.toUInt64.toFloat * 1.0 := dif_pos ⟨hk, by decide⟩
    rw [hfast, h.toFloat_eq hk, one_eq]
    change Float.ofModel (.pack (UnpackedFloat.mul .binary64 h.normal.number.toModel.unpack
      normal_one.number.toModel.unpack)) = _
    rw [Normal.unpack_number, Normal.unpack_number]
    change Float.ofModel
      (.pack (roundWithAccuracy .binary64 .positive (c * 2 ^ 52) (t - 52 + -52) .exact)) = _
    rw [roundWithAccuracy_zeros h.normal (by omega)]
    rfl
  · have hshift : k * 2 ^ 53 = c * 2 ^ (t + 1) := by
      have hdouble : k * 2 ^ 53 = k * 2 ^ 52 * 2 := by omega
      rw [hdouble, ← h.eq]
      ring
    rw [ofNat_eq_roundWithAccuracy (not_lt.1 hk), hshift,
      roundWithAccuracy_zeros h.normal (by omega)]
    rfl

end Scaled

theorem Scaled.ofNat_add_one {k c t c' t' : ℕ} (h : Scaled k c t) (h' : Scaled (k + 1) c' t') :
    Float.ofNat k + 1.0 = Float.ofNat (k + 1) := by
  rw [h.ofNat_eq, h'.ofNat_eq, one_eq]
  change Float.ofModel (.pack (UnpackedFloat.add .binary64 h.normal.number.toModel.unpack
    normal_one.number.toModel.unpack)) = _
  rw [Normal.unpack_number, Normal.unpack_number]
  have hmin : min ((t : ℤ) - 52) (-52) = -52 := by omega
  have hleft : ((t : ℤ) - 52 - -52).toNat = t := by omega
  have hsum : ((k * 2 ^ 52 : ℕ) : ℤ) + ((2 ^ 52 * 2 ^ 0 : ℕ) : ℤ) = ((k + 1) * 2 ^ 52 : ℕ) := by
    omega
  have hround : UnpackedFloat.round .binary64 .positive ((k + 1) * 2 ^ 52) (-52) =
      .finite .positive c' (t' - 52) h'.normal.pos := by
    apply round_exact h'.normal
    have hleft : (-52 - ((t' : ℤ) - 52)).toNat = 0 := by omega
    have hright : ((t' : ℤ) - 52 - -52).toNat = t' := by omega
    rw [hleft, hright, h'.eq, Nat.pow_zero, Nat.mul_one]
  rw [add_positive, hmin, hleft, Int.sub_self, Int.toNat_zero, Nat.shiftLeft_eq,
    Nat.shiftLeft_eq, h.eq]
  rw [hsum, normalize_natCast (Nat.mul_pos k.succ_pos (Nat.two_pow_pos 52)), hround]
  rfl

/-- Below `2 ^ 53` one is added without rounding. -/
theorem ofNat_add_one {k : ℕ} (hk : 1 ≤ k) (hlt : k < 2 ^ 53) :
    Float.ofNat k + 1.0 = Float.ofNat (k + 1) := by
  obtain ⟨c, t, h⟩ := exists_scaled (k := k) hk hlt.le
  obtain ⟨c', t', h'⟩ := exists_scaled (k := k + 1) (by omega) hlt
  exact h.ofNat_add_one h'

end WorldScript.Number
