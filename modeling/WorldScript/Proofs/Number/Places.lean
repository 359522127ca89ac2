import WorldScript.Proofs.Number.Value
import WorldScript.Run.Leaf

/-! # Numbers as places of a list

A place is read under one test and written under another: reading asks whether a number lies outside
the list, writing whether it lies inside. Both compare with the size of the list as a number, which
is rounded.

* `isOutside_eq`, `isInside_eq`: both tests are that of `placeIn?`, for every number and every size.
* `lt_of_placeIn?`: a place that passes is below the size, whatever the rounding.
* `placeIn?_eq_some_iff_lt`: for a size to `2 ^ 53` every place below it passes. -/

namespace WorldScript.Number

open Float.Model (Format UnpackedFloat)

/-! ## The size of a list as a number -/

/-- The conversion of a natural number is rounded to 53 bits. -/
theorem ofNat_rounds {k : ℕ} (hk : 0 < k) :
    ∃ c t, ∃ h : Rounds k c t, 2 ^ 52 ≤ c ∧
      Float.ofNat k = .ofModel (.pack (.finite .positive c t h.pos)) := by
  rcases le_or_gt k (2 ^ 53) with hle | hgt
  · obtain ⟨c, t, h⟩ := exists_scaled hk hle
    have hnormal := h.normal
    refine ⟨c, t - 52, ⟨hnormal.pos, ⟨hnormal.high, hnormal.least, .inl hnormal.low⟩, ?_⟩,
      hnormal.low, h.ofNat_eq⟩
    intro m' e' _ hle
    rwa [h.mul_zpow_eq]
  · have hlog : 52 ≤ (k * 2 ^ 53).log2 := by
      rw [log2_mul_two_pow hk.ne']
      omega
    obtain ⟨c, t, h, ht, heq⟩ := roundWithAccuracy_rounds (e := -53)
      (Nat.mul_pos hk (Nat.two_pow_pos 53)) (by omega) (.inl hlog) .positive
    have hvalue : ((k * 2 ^ 53 : ℕ) : ℚ) * 2 ^ (-53 : ℤ) = k := by
      rw [zpow_neg]
      push_cast
      exact mul_inv_cancel_right₀ (by norm_num) _
    rw [hvalue] at h
    refine ⟨c, t, h, h.canonical.full.resolve_right (by omega), ?_⟩
    rw [ofNat_eq_roundWithAccuracy hgt.le, heq]

/-- The size as a number is finite, and not above any number that the size is not above, or it is
infinite, and the size is above every number. -/
theorem ofNat_cases (k : ℕ) :
    (∃ q, parts? (Float.ofNat k) = some q ∧
        ∀ x p, parts? x = some p → k ≤ p.value → q.value ≤ p.value) ∨
      (Float.ofNat k).toModel.unpack = .infinity .positive ∧
        ∀ x p, parts? x = some p → p.value < k := by
  rcases Nat.eq_zero_or_pos k with rfl | hk
  · obtain ⟨q, hq, hvalue⟩ := parts?_ofNat (k := 0) (by omega)
    exact .inl ⟨q, hq, fun x p _ hle => hvalue ▸ hle⟩
  · obtain ⟨c, t, h, hlow, heq⟩ := ofNat_rounds hk
    have hle (x : Float) (p : Parts) (hx : parts? x = some p) (hp : k ≤ p.value) :
        (c : ℚ) * 2 ^ t ≤ p.mantissa * 2 ^ p.exponent := by
      have habs : p.value ≤ p.mantissa * 2 ^ p.exponent := p.abs_value ▸ le_abs_self p.value
      exact h.le _ _ (canonical_of_parts? hx) (hp.trans habs)
    by_cases ht : t ≤ 971
    · have hn : Normal c t := ⟨hlow, h.canonical.high, h.canonical.least, ht⟩
      refine .inl ⟨⟨false, c, t⟩, heq ▸ hn.parts?_number, fun x p hx hp => ?_⟩
      have hpos : 0 < p.value := hp.trans_lt' (by exact_mod_cast hk)
      rw [Parts.value_of_not_neg (by simp), ← abs_of_pos hpos, p.abs_value]
      exact hle x p hx hp
    · have hmodel : Float.ofNat k = .ofModel (.pack (.infinity .positive)) := by
        rw [heq]
        apply eq_of_toBits
        apply UInt64.toNat_inj.1
        exact congrArg BitVec.toNat (pack_of_exponent_gt (not_le.1 ht) h.pos .positive)
      refine .inr ⟨hmodel ▸ rfl, fun x p hx => not_le.1 fun hp => ?_⟩
      have hcanonical := canonical_of_parts? hx
      have hgreatest : p.exponent ≤ 971 := by
        obtain ⟨-, hpower, ⟨-, -, he⟩ | ⟨-, -, he⟩⟩ := parts?_eq_some hx <;> omega
      exact absurd (hle x p hx hp)
        (not_le.2 (hcanonical.lt_of_lt h.canonical (hgreatest.trans_lt (not_le.1 ht))))

section Size
variable {x : Float} {p : Parts} (hx : parts? x = some p) {k : ℕ}
include hx

theorem lt_of_lt_ofNat (h : x < Float.ofNat k) : p.value < k := by
  by_contra hle
  rcases ofNat_cases k with ⟨q, hq, hround⟩ | ⟨-, hlt⟩
  · exact absurd ((lt_iff_value hx hq).1 h) (not_lt.2 (hround x p hx (not_lt.1 hle)))
  · exact hle (hlt x p hx)

theorem ofNat_le_iff : Float.ofNat k ≤ x ↔ ¬ x < Float.ofNat k := by
  rcases ofNat_cases k with ⟨q, hq, -⟩ | ⟨hinf, -⟩
  · rw [le_iff_value hq hx, lt_iff_value hx hq, not_lt]
  · rw [le_iff_unpack, lt_iff_unpack, hinf]
    rcases unpack_of_parts? hx with ⟨-, hux⟩ | ⟨_, hux⟩ <;> rw [hux] <;>
      exact iff_of_false Bool.false_ne_true fun h => h rfl

theorem lt_ofNat_iff (hk : k ≤ 2 ^ 53) : x < Float.ofNat k ↔ p.value < k := by
  obtain ⟨q, hq, hvalue⟩ := parts?_ofNat hk
  rw [lt_iff_value hx hq, hvalue]

end Size

/-! ## The two tests -/

/-- The place in a list of the given size that a number is. -/
def placeIn? (n : Float) (size : ℕ) : Option ℕ :=
  (natural? n).filter fun _ => n < Float.ofNat size

theorem placeIn?_eq_some_iff {n : Float} {size i : ℕ} :
    placeIn? n size = some i ↔ natural? n = some i ∧ n < Float.ofNat size := by
  rw [placeIn?, Option.filter_eq_some_iff, decide_eq_true_iff]

/-- A whole number is a natural number if it is not negative. -/
theorem natural?_isSome_iff {n : Float} :
    (natural? n).isSome = true ↔ (fract n == 0.0) = true ∧ 0.0 ≤ n := by
  obtain ⟨q, hzero, hvalue⟩ := parts?_zero
  rw [Option.isSome_iff_exists, fract_beq_zero_iff]
  constructor
  · rintro ⟨k, hk⟩
    obtain ⟨p, hp, hvp⟩ := natural?_eq_some_iff.1 hk
    refine ⟨⟨p, hp, k, by exact_mod_cast hvp⟩, ?_⟩
    rw [le_iff_value hzero hp, hvalue, hvp]
    exact Nat.cast_nonneg k
  · rintro ⟨⟨p, hp, z, hz⟩, hle⟩
    rw [le_iff_value hzero hp, hvalue, hz] at hle
    lift z to ℕ using by exact_mod_cast hle
    exact ⟨z, natural?_eq_some_iff.2 ⟨p, hp, by exact_mod_cast hz⟩⟩

/-- The test of a write. -/
theorem isInside_eq (n : Float) (size : ℕ) : isInside n size = (placeIn? n size).isSome := by
  rw [Bool.eq_iff_iff, isInside, Bool.and_eq_true, Bool.and_eq_true, decide_eq_true_iff,
    decide_eq_true_iff, ge_iff_le, ← natural?_isSome_iff, Option.isSome_iff_exists,
    Option.isSome_iff_exists]
  simp only [placeIn?_eq_some_iff, exists_and_right]

/-- A read is refused exactly where a write is. -/
theorem isOutside_eq_not_isInside (n : Float) (size : ℕ) : isOutside n size = !isInside n size := by
  rw [isOutside, isInside, bne]
  cases hn : parts? n with
  | none =>
    have hfract : (fract n == 0.0) = false := by
      rw [Bool.eq_false_iff, ne_eq, fract_beq_zero_iff]
      simp [hn]
    rw [hfract]
    rfl
  | some p =>
    obtain ⟨q, hzero, -⟩ := parts?_zero
    have hneg : n < 0.0 ↔ ¬ n ≥ 0.0 := by
      rw [ge_iff_le, lt_iff_value hn hzero, le_iff_value hzero hn, not_le]
    simp only [hneg, ge_iff_le, ofNat_le_iff hn, decide_not, Bool.not_and]

/-- The test of a read. -/
theorem isOutside_eq (n : Float) (size : ℕ) : isOutside n size = (placeIn? n size).isNone := by
  rw [isOutside_eq_not_isInside, isInside_eq, Option.not_isSome]

section Place
variable {n : Float} {size i : ℕ}

theorem whole_of_natural? (h : natural? n = some i) : whole n = i := by
  obtain ⟨p, hp, hvalue⟩ := natural?_eq_some_iff.1 h
  have hwhole : whole n = if p.negative then 0 else shift p.mantissa p.exponent := by
    rw [whole, hp]
  rw [hwhole]
  cases hsign : p.negative with
  | true =>
    have hm : p.mantissa = 0 := by
      by_contra hm
      have hneg := Parts.value_neg hsign hm
      rw [hvalue] at hneg
      exact absurd hneg (not_lt.2 (Nat.cast_nonneg i))
    rw [Parts.value_eq_zero_iff.2 hm] at hvalue
    exact_mod_cast hvalue
  | false =>
    rw [Parts.value_of_not_neg (by simp [hsign])] at hvalue
    by_cases he : 0 ≤ p.exponent
    · exact (if_pos he).trans ((Parts.mul_zpow_eq_iff_of_nonneg he).1 hvalue)
    · exact (if_neg he).trans ((Parts.mul_zpow_eq_iff_of_neg (not_le.1 he)).1 hvalue).2

theorem whole_of_placeIn? (h : placeIn? n size = some i) : whole n = i :=
  whole_of_natural? (placeIn?_eq_some_iff.1 h).1

theorem placeIn?_eq_some_whole (h : placeIn? n size = some i) : placeIn? n size = some (whole n) := by
  rw [h, whole_of_placeIn? h]

theorem isInside_iff : isInside n size = true ↔ placeIn? n size = some (whole n) := by
  rw [isInside_eq, Option.isSome_iff_exists]
  constructor
  · rintro ⟨i, hi⟩
    exact placeIn?_eq_some_whole hi
  · exact fun h => ⟨_, h⟩

theorem isOutside_iff : isOutside n size = true ↔ placeIn? n size = none := by
  rw [isOutside_eq, Option.isNone_iff_eq_none]

theorem not_isOutside_iff : ¬ isOutside n size = true ↔ placeIn? n size = some (whole n) := by
  rw [isOutside_eq_not_isInside, ← isInside_iff]
  simp

/-- A place is below the size, however the size is rounded. -/
theorem lt_of_placeIn? (h : placeIn? n size = some i) : i < size := by
  obtain ⟨hn, hlt⟩ := placeIn?_eq_some_iff.1 h
  obtain ⟨p, hp, hvalue⟩ := natural?_eq_some_iff.1 hn
  have := lt_of_lt_ofNat hp hlt
  rw [hvalue] at this
  exact_mod_cast this

/-- The places of a list of at most `2 ^ 53` items are those of its items. -/
theorem placeIn?_eq_some_iff_lt (h : size ≤ 2 ^ 53) :
    placeIn? n size = some i ↔ natural? n = some i ∧ i < size := by
  rw [placeIn?_eq_some_iff]
  refine and_congr_right fun hn => ?_
  obtain ⟨p, hp, hvalue⟩ := natural?_eq_some_iff.1 hn
  rw [lt_ofNat_iff hp h, hvalue, Nat.cast_lt]

end Place

end WorldScript.Number
