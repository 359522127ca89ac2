import Mathlib.Order.Compare
import WorldScript.Proofs.Number.Rounding

/-! # The value of a number

A number that is neither infinite nor without a value has a rational value. Numbers are compared as
their values are. The difference of two numbers is rounded, but it is zero only if both have the
same value.

* `compare_eq_cmp`: the order of two numbers is that of their values.
* `sub_beq_zero_iff`: when a difference is zero.
* `fract_beq_zero_iff`: a number without fractional digits is a whole number.
* `exists_countsTo_iff`: the rounded numbers to which one can count. -/

namespace WorldScript.Number

open Float.Model (Format UnpackedFloat)
open Float.Model.UnpackedFloat (Sign ExtendedMantissa roundWithAccuracy shiftToTargetExponent
  shiftToExponent unpackSign unpackExponent unpackMantissa)

/-! ## Parts and words -/

/-- The parts are those of the word: a mantissa of 53 bits, or fewer at the least exponent. -/
structure Canonical (m : ℕ) (e : ℤ) : Prop where
  high : m < 2 ^ 53
  least : -1074 ≤ e
  full : 2 ^ 52 ≤ m ∨ e = -1074

theorem canonical_of_parts? {x : Float} {p : Parts} (h : parts? x = some p) :
    Canonical p.mantissa p.exponent := by
  obtain ⟨-, -, ⟨-, hm, he⟩ | ⟨hpos, hm, he⟩⟩ := parts?_eq_some h
  · exact ⟨by omega, by omega, .inr he⟩
  · exact ⟨by omega, by omega, .inl (by omega)⟩

/-- What a word with finite parts stands for. -/
theorem unpack_of_parts? {x : Float} {p : Parts} (h : parts? x = some p) :
    p.mantissa = 0 ∧ x.toModel.unpack = .zero (signOf p.negative) ∨
      ∃ hm, x.toModel.unpack = .finite (signOf p.negative) p.mantissa p.exponent hm := by
  have hmantissa : (@unpackMantissa .binary64 x.toBits.toBitVec).toNat = x.toBits.toNat % 2 ^ 52 :=
    toNat_unpackMantissa _
  have hexponent : (@unpackExponent .binary64 x.toBits.toBitVec).toNat =
      x.toBits.toNat / 2 ^ 52 % 2 ^ 11 := toNat_unpackExponent _
  obtain ⟨hneg, hpower, hcases⟩ := parts?_eq_some h
  rw [hneg, ← ofBitVec_unpackSign]
  change _ ∧ UnpackedFloat.unpack .binary64 x.toBits.toBitVec = _ ∨
    ∃ hm, UnpackedFloat.unpack .binary64 x.toBits.toBitVec = _
  have hfinite : @unpackExponent .binary64 x.toBits.toBitVec ≠ -1#11 := by
    intro heq
    rw [heq] at hexponent
    change 2047 = _ at hexponent
    omega
  rcases hcases with ⟨hzero, hm, he⟩ | ⟨hpos, hm, he⟩
  · have hbottom : @unpackExponent .binary64 x.toBits.toBitVec = 0#11 :=
      BitVec.eq_of_toNat_eq (hexponent.trans hzero)
    by_cases hnone : @unpackMantissa .binary64 x.toBits.toBitVec = 0#52
    · left
      rw [hnone] at hmantissa
      exact ⟨hm.trans hmantissa.symm,
        (if_neg hfinite).trans ((if_pos hbottom).trans (dif_pos hnone))⟩
    · right
      have hne : 0 < p.mantissa := by
        rw [hm, ← hmantissa]
        refine Nat.pos_of_ne_zero fun hzero => hnone (BitVec.eq_of_toNat_eq hzero)
      refine ⟨hne, (if_neg hfinite).trans ((if_pos hbottom).trans ((dif_neg hnone).trans ?_))⟩
      rw [UnpackedFloat.finite.injEq]
      refine ⟨rfl, hmantissa.trans hm.symm, ?_⟩
      rw [hexponent, hzero, he]
      rfl
  · right
    have hnormal : @unpackExponent .binary64 x.toBits.toBitVec ≠ 0#11 := by
      intro heq
      rw [heq] at hexponent
      change 0 = _ at hexponent
      omega
    refine ⟨by omega, ((if_neg hfinite).trans (if_neg hnormal)).trans ?_⟩
    rw [UnpackedFloat.finite.injEq]
    refine ⟨rfl, ?_, ?_⟩
    · rw [toNat_append_eq_add, hmantissa, hm]
      change 1 * 2 ^ 52 + _ = _
      omega
    · rw [hexponent, he]
      rfl

/-! ## Order -/

/-- Of two mantissas at canonical exponents, the one at the greater exponent is greater. -/
theorem Canonical.lt_of_lt {m m' : ℕ} {e e' : ℤ} (h : Canonical m e) (h' : Canonical m' e')
    (he : e < e') : (m : ℚ) * 2 ^ e < m' * 2 ^ e' := by
  have hfull : 2 ^ 52 ≤ m' := h'.full.resolve_right (by have := h.least; omega)
  have hhigh : (m : ℚ) < 2 ^ 53 := by exact_mod_cast h.high
  have hlow : (2 : ℚ) ^ 52 ≤ m' := by exact_mod_cast hfull
  calc (m : ℚ) * 2 ^ e < 2 ^ 53 * 2 ^ e := by gcongr
    _ = 2 ^ 52 * 2 ^ (e + 1) := by rw [zpow_add_one₀ (by norm_num)]; ring
    _ ≤ 2 ^ 52 * 2 ^ e' := by
      have : (2 : ℚ) ^ (e + 1) ≤ 2 ^ e' := zpow_le_zpow_right₀ (by norm_num) he
      gcongr
    _ ≤ m' * 2 ^ e' := by gcongr

theorem Canonical.compare_eq {m m' : ℕ} {e e' : ℤ} (h : Canonical m e) (h' : Canonical m' e') :
    (compare e e').then (compare m m') = cmp ((m : ℚ) * 2 ^ e) (m' * 2 ^ e') := by
  rcases lt_trichotomy e e' with he | rfl | he
  · rw [Int.compare_eq_lt.2 he, Ordering.lt_then, eq_comm, cmp_eq_lt_iff]
    exact h.lt_of_lt h' he
  · have hpos : (0 : ℚ) < 2 ^ e := by positivity
    rw [Int.compare_eq_eq.2 rfl, Ordering.eq_then]
    rcases lt_trichotomy m m' with hm | rfl | hm
    · rw [Nat.compare_eq_lt.2 hm, eq_comm, cmp_eq_lt_iff]
      gcongr
    · rw [Nat.compare_eq_eq.2 rfl, cmp_self_eq_eq]
    · rw [Nat.compare_eq_gt.2 hm, eq_comm, cmp_eq_gt_iff]
      gcongr
  · rw [Int.compare_eq_gt.2 he, Ordering.gt_then, eq_comm, cmp_eq_gt_iff]
    exact h'.lt_of_lt h he

theorem Parts.value_eq_zero_iff {p : Parts} : p.value = 0 ↔ p.mantissa = 0 := by
  have hpow : (2 : ℚ) ^ p.exponent ≠ 0 := by positivity
  have hsign : (if p.negative then -1 else 1 : ℚ) ≠ 0 := by split_ifs <;> norm_num
  rw [Parts.value, mul_eq_zero, mul_eq_zero, or_iff_left hpow, or_iff_right hsign, Nat.cast_eq_zero]

/-- Zero is among the finite numbers. -/
theorem parts?_zero : ∃ p, parts? 0.0 = some p ∧ p.value = 0 :=
  ⟨⟨false, 0, -1074⟩, rfl, Parts.value_eq_zero_iff.2 rfl⟩

theorem Parts.value_pos {p : Parts} (hsign : p.negative = false) (hm : 0 < p.mantissa) :
    0 < p.value := by
  rw [value_of_not_neg (by simp [hsign])]
  positivity

/-- Numbers are compared as their values are. -/
theorem compare_eq_cmp {x y : Float} {p q : Parts} (hx : parts? x = some p)
    (hy : parts? y = some q) :
    x.toModel.unpack.compare y.toModel.unpack = some (cmp p.value q.value) := by
  have hcmp := (canonical_of_parts? hx).compare_eq (canonical_of_parts? hy)
  rcases unpack_of_parts? hx with ⟨hm, hux⟩ | ⟨hm, hux⟩ <;>
    rcases unpack_of_parts? hy with ⟨hm', huy⟩ | ⟨hm', huy⟩ <;> rw [hux, huy]
  · rw [Parts.value_eq_zero_iff.2 hm, Parts.value_eq_zero_iff.2 hm', cmp_self_eq_eq]
    rfl
  · rw [Parts.value_eq_zero_iff.2 hm]
    cases hsign : q.negative with
    | false => rw [(cmp_eq_lt_iff _ _).2 (Parts.value_pos hsign hm')]; rfl
    | true => rw [(cmp_eq_gt_iff _ _).2 (Parts.value_neg hsign hm'.ne')]; rfl
  · rw [Parts.value_eq_zero_iff.2 hm']
    cases hsign : p.negative with
    | false => rw [(cmp_eq_gt_iff _ _).2 (Parts.value_pos hsign hm)]; rfl
    | true => rw [(cmp_eq_lt_iff _ _).2 (Parts.value_neg hsign hm.ne')]; rfl
  · cases hsign : p.negative <;> cases hsign' : q.negative
    · rw [Parts.value_of_not_neg (by simp [hsign]), Parts.value_of_not_neg (by simp [hsign']),
        ← hcmp]
      rfl
    · have hneg := Parts.value_neg hsign' hm'.ne'
      rw [(cmp_eq_gt_iff _ _).2 (hneg.trans (Parts.value_pos hsign hm))]
      rfl
    · have hneg := Parts.value_neg hsign hm.ne'
      rw [(cmp_eq_lt_iff _ _).2 (hneg.trans (Parts.value_pos hsign' hm'))]
      rfl
    · have hanti : StrictAnti fun v : ℚ => -v := fun _ _ => neg_lt_neg
      have hswap (a b : ℚ) : cmp (-a) (-b) = (cmp a b).swap :=
        (hanti.cmp_map_eq a b).trans (cmp_swap a b).symm
      rw [Parts.value_of_neg hsign, Parts.value_of_neg hsign', hswap, ← hcmp]
      rfl

section Order
variable {x y : Float} {p q : Parts} (hx : parts? x = some p) (hy : parts? y = some q)
include hx hy

theorem le_iff_value : x ≤ y ↔ p.value ≤ q.value := by
  rw [le_iff_unpack, UnpackedFloat.le, compare_eq_cmp hx hy]
  rcases lt_trichotomy p.value q.value with h | h | h
  · rw [(cmp_eq_lt_iff _ _).2 h]
    exact iff_of_true rfl h.le
  · rw [(cmp_eq_eq_iff _ _).2 h]
    exact iff_of_true rfl h.le
  · rw [(cmp_eq_gt_iff _ _).2 h]
    exact iff_of_false (by decide) (not_le.2 h)

theorem lt_iff_value : x < y ↔ p.value < q.value := by
  rw [lt_iff_unpack, UnpackedFloat.lt, compare_eq_cmp hx hy, beq_iff_eq, Option.some_inj,
    cmp_eq_lt_iff]

theorem beq_iff_value : (x == y) = true ↔ p.value = q.value := by
  change (x.toModel.unpack.compare y.toModel.unpack == some .eq) = true ↔ _
  rw [compare_eq_cmp hx hy, beq_iff_eq, Option.some_inj, cmp_eq_eq_iff]

end Order

/-- An infinite number, or one that is no number, is not equal to one that is finite. -/
theorem beq_eq_false_of_parts? {x y : Float} {q : Parts} (hx : parts? x = none)
    (hy : parts? y = some q) : (x == y) = false := by
  change (x.toModel.unpack.compare y.toModel.unpack == some .eq) = false
  rcases unpack_of_parts?_eq_none hx with hux | ⟨sign, hux⟩ <;>
    rcases unpack_of_parts? hy with ⟨-, huy⟩ | ⟨_, huy⟩ <;> rw [hux, huy]
  · rfl
  · rfl
  · cases sign <;> rfl
  · cases sign <;> rfl

/-! ## Rounding -/

theorem mantissa_shiftRight (m s : ℕ) :
    ((⟨m, false, false⟩ : ExtendedMantissa) >>> s).mantissa = m / 2 ^ s := by
  change (s.repeat ExtendedMantissa.shiftRightOne _).mantissa = _
  induction s with
  | zero => rw [Nat.pow_zero, Nat.div_one]; rfl
  | succ s ih =>
    rw [Nat.repeat, pow_succ, ← Nat.div_div_eq_div_mul, ← ih]
    rfl

theorem mantissa_le_roundedMantissa (em : ExtendedMantissa) :
    em.mantissa ≤ em.roundedMantissa ∧ em.roundedMantissa ≤ em.mantissa + 1 := by
  obtain ⟨m, r, s⟩ := em
  cases r <;> cases s
  · exact ⟨le_rfl, Nat.le_succ m⟩
  · exact ⟨le_rfl, Nat.le_succ m⟩
  · change m ≤ m + m % 2 ∧ m + m % 2 ≤ m + 1
    omega
  · exact ⟨Nat.le_succ m, le_rfl⟩

/-- A mantissa is rounded up to the next whole one at most. -/
theorem roundedMantissa_le {m s k : ℕ} (h : m ≤ k * 2 ^ s) :
    ((⟨m, false, false⟩ : ExtendedMantissa) >>> s).roundedMantissa ≤ k := by
  have hpos := Nat.two_pow_pos s
  rcases h.eq_or_lt with rfl | hlt
  · rw [shiftRight_zeros]
    exact le_rfl
  · refine (mantissa_le_roundedMantissa _).2.trans ?_
    rw [mantissa_shiftRight]
    exact (Nat.div_lt_iff_lt_mul hpos).2 hlt

theorem shiftToTargetExponent_eq {m : ℕ} {e : ℤ} (he : -1074 ≤ e) :
    shiftToTargetExponent .binary64 m e .exact =
      ((⟨m, false, false⟩ : ExtendedMantissa) >>> (m.log2 - 52), e + (m.log2 - 52 : ℕ)) := by
  have hshift : (Format.binary64.targetExponent (Float.Model.totalExponent m e) - e).toNat =
      m.log2 - 52 := by
    rw [targetExponent_eq, Float.Model.totalExponent]
    omega
  simp only [shiftToTargetExponent, shiftToExponent, hshift, ExtendedMantissa.ofMantissaAndAccuracy]

/-- The number `c * 2 ^ t` has the form of a word, and is not above any number of that form that the
value `v` is not above. -/
structure Rounds (v : ℚ) (c : ℕ) (t : ℤ) : Prop where
  pos : 0 < c
  canonical : Canonical c t
  le : ∀ m' e', Canonical m' e' → v ≤ m' * 2 ^ e' → (c : ℚ) * 2 ^ t ≤ m' * 2 ^ e'

/-- A mantissa that has overflowed in rounding has one bit less at the next exponent. -/
theorem shiftToTargetExponent_carry {c : ℕ} {t : ℤ} (hpos : 0 < c) (hle : c ≤ 2 ^ 53)
    (ht : -1074 ≤ t) (hfull : 2 ^ 52 ≤ c ∨ t = -1074) :
    ∃ c' t', 0 < c' ∧ Canonical c' t' ∧ t ≤ t' ∧ (c' : ℚ) * 2 ^ t' = c * 2 ^ t ∧
      (shiftToTargetExponent .binary64 c t .exact).1.mantissa = c' ∧
      (shiftToTargetExponent .binary64 c t .exact).2 = t' := by
  simp only [shiftToTargetExponent_eq ht, mantissa_shiftRight]
  rcases hle.lt_or_eq with hlt | rfl
  · have hlog : c.log2 < 53 := (Nat.log2_lt hpos.ne').2 hlt
    have hzero : c.log2 - 52 = 0 := by omega
    refine ⟨c, t, hpos, ⟨hlt, ht, hfull⟩, le_rfl, rfl, ?_⟩
    rw [hzero, Nat.pow_zero, Nat.div_one, Nat.cast_zero, Int.add_zero]
    exact ⟨rfl, rfl⟩
  · have hlog : (2 ^ 53).log2 = 53 := Nat.log2_two_pow
    refine ⟨2 ^ 52, t + 1, by omega, ⟨by omega, by omega, .inl le_rfl⟩, by omega, ?_, ?_⟩
    · rw [zpow_add_one₀ (by norm_num)]
      push_cast
      ring
    · rw [hlog]
      exact ⟨rfl, rfl⟩

/-- What is rounded up to the digit kept is not above a number of the form of a word that was not
below. -/
theorem roundedMantissa_mul_le {m m' s : ℕ} {e e' : ℤ} (hfull : 2 ^ 52 * 2 ^ s ≤ m ∨ e + s = -1074)
    (h' : Canonical m' e') (hv : (m : ℚ) * 2 ^ e ≤ m' * 2 ^ e') :
    ((⟨m, false, false⟩ : ExtendedMantissa) >>> s).roundedMantissa * (2 : ℚ) ^ (e + s) ≤
      m' * 2 ^ e' := by
  have hsplit : (2 : ℚ) ^ (e + s) = 2 ^ s * 2 ^ e := by
    rw [zpow_add₀ (by norm_num), zpow_natCast, mul_comm]
  rcases le_or_gt (e + s) e' with hge | hlt
  · -- The number is a multiple of the last digit that is kept.
    obtain ⟨u, hu⟩ : ∃ u : ℕ, e' = e + s + u := ⟨(e' - (e + s)).toNat, by omega⟩
    have hmul : (m' : ℚ) * 2 ^ e' = (m' * 2 ^ u : ℕ) * 2 ^ (e + s) := by
      rw [hu, zpow_add₀ (by norm_num), zpow_natCast]
      push_cast
      ring
    have hk : m ≤ m' * 2 ^ u * 2 ^ s := by
      rw [hmul, hsplit, ← mul_assoc] at hv
      exact_mod_cast le_of_mul_le_mul_right hv (by positivity)
    have hle : (((⟨m, false, false⟩ : ExtendedMantissa) >>> s).roundedMantissa : ℚ) ≤
        (m' * 2 ^ u : ℕ) := by exact_mod_cast roundedMantissa_le hk
    rw [hmul]
    gcongr
  · -- A number with a smaller last digit is below what is rounded.
    have hleast := h'.least
    have hlow := hfull.resolve_right (by omega)
    have hcanonical : Canonical (2 ^ 52) (e + s) := ⟨by omega, by omega, .inl le_rfl⟩
    have hbelow := h'.lt_of_lt hcanonical hlt
    have hm : ((2 ^ 52 * 2 ^ s : ℕ) : ℚ) ≤ m := by exact_mod_cast hlow
    have habove : ((2 ^ 52 : ℕ) : ℚ) * 2 ^ (e + s) ≤ m * 2 ^ e := by
      rw [hsplit, ← mul_assoc]
      push_cast at hm ⊢
      gcongr
    exact absurd (habove.trans hv) (not_le.2 hbelow)

/-- A mantissa of at least 53 bits, or at the least exponent, is rounded to the form of a word. -/
theorem roundWithAccuracy_rounds {m : ℕ} {e : ℤ} (hm : 0 < m) (he : -1074 ≤ e)
    (hbits : 52 ≤ m.log2 ∨ e = -1074) (sign : Sign) :
    ∃ c t, ∃ h : Rounds (m * 2 ^ e) c t, e ≤ t ∧
      roundWithAccuracy .binary64 sign m e .exact = .finite sign c t h.pos := by
  obtain ⟨s, hs⟩ : ∃ s, s = m.log2 - 52 := ⟨_, rfl⟩
  obtain ⟨c, hc⟩ : ∃ c, c = ((⟨m, false, false⟩ : ExtendedMantissa) >>> s).roundedMantissa :=
    ⟨_, rfl⟩
  have hlog {a : ℕ} (ha : a ≤ m.log2) : 2 ^ a ≤ m :=
    (Nat.pow_le_pow_right (by omega) ha).trans (Nat.log2_self_le hm.ne')
  have hlow : 2 ^ 52 * 2 ^ s ≤ m ∨ e + s = -1074 := by
    rw [← pow_add]
    exact (le_or_gt 52 m.log2).imp (fun h => hlog (by omega)) (by omega)
  have hfloor : m / 2 ^ s ≤ c := by
    rw [hc, ← mantissa_shiftRight]
    exact (mantissa_le_roundedMantissa _).1
  have hpos : 0 < c := hfloor.trans_lt' (Nat.div_pos (hlog (by omega)) (Nat.two_pow_pos s))
  have hfull : 2 ^ 52 ≤ c ∨ e + s = -1074 :=
    hlow.imp_left fun h => ((Nat.le_div_iff_mul_le (Nat.two_pow_pos s)).2 h).trans hfloor
  have htop : c ≤ 2 ^ 53 := by
    rw [hc]
    apply roundedMantissa_le
    rw [← pow_add]
    exact Nat.lt_log2_self.le.trans (Nat.pow_le_pow_right (by omega) (by omega))
  obtain ⟨c', t', hpos', hcanonical, hle, hvalue, hfst, hsnd⟩ :=
    shiftToTargetExponent_carry hpos htop (t := e + s) (by omega) hfull
  refine ⟨c', t', ⟨hpos', hcanonical, fun m' e' h' hv => ?_⟩, by omega, ?_⟩
  · rw [hvalue, hc]
    exact roundedMantissa_mul_le hlow h' hv
  · have hround : roundWithAccuracy .binary64 sign m e .exact =
        if h : (shiftToTargetExponent .binary64 c (e + s) .exact).1.mantissa = 0 then .zero sign
        else .finite sign (shiftToTargetExponent .binary64 c (e + s) .exact).1.mantissa
          (shiftToTargetExponent .binary64 c (e + s) .exact).2 (Nat.pos_of_ne_zero h) := by
      rw [roundWithAccuracy, shiftToTargetExponent_eq he, ← hs, hc]
    rw [hround, dif_neg (hfst ▸ hpos'.ne'), UnpackedFloat.finite.injEq]
    exact ⟨rfl, hfst, hsnd⟩

/-- A number is rounded to one that is not zero. -/
theorem round_rounds {m : ℕ} {e : ℤ} (hm : 0 < m) (he : -1074 ≤ e) (sign : Sign) :
    ∃ c t, ∃ h : 0 < c, Canonical c t ∧
      UnpackedFloat.round .binary64 sign m e = .finite sign c t h := by
  obtain ⟨a, ha⟩ : ∃ a,
    a = (e - Format.binary64.targetExponent (Float.Model.totalExponent m e)).toNat := ⟨_, rfl⟩
  have hround : UnpackedFloat.round .binary64 sign m e =
      roundWithAccuracy .binary64 sign (m * 2 ^ a) (e - a) .exact := by
    rw [← Nat.shiftLeft_eq, ha]
    rfl
  rw [targetExponent_eq, Float.Model.totalExponent] at ha
  obtain ⟨c, t, h, -, heq⟩ := roundWithAccuracy_rounds (m := m * 2 ^ a) (e := e - a)
    (Nat.mul_pos hm (Nat.two_pow_pos a)) (by omega)
    (by rw [log2_mul_two_pow hm.ne']; omega) sign
  exact ⟨c, t, h.pos, h.canonical, hround.trans heq⟩

/-! ## Differences -/

/-- A number is zero exactly when all bits of its word but the sign are. -/
theorem beq_zero_iff {x : Float} : (x == 0.0) = true ↔ x.toBits.toNat % 2 ^ 63 = 0 := by
  obtain ⟨q, hzero, hvalue⟩ := parts?_zero
  cases hx : parts? x with
  | none =>
    have hpower := power_of_parts?_eq_none hx
    rw [beq_eq_false_of_parts? hx hzero]
    refine iff_of_false Bool.false_ne_true ?_
    omega
  | some p =>
    rw [beq_iff_value hx hzero, hvalue, Parts.value_eq_zero_iff]
    obtain ⟨-, -, ⟨hpower, hm, -⟩ | ⟨hpower, hm, -⟩⟩ := parts?_eq_some hx <;> omega

theorem pack_of_exponent_gt {c : ℕ} {e : ℤ} (he : 971 < e) (hc : 0 < c) (sign : Sign) :
    UnpackedFloat.pack .binary64 (.finite sign c e hc) =
      UnpackedFloat.pack .binary64 (.infinity sign) := by
  refine if_pos ?_
  change 2048 ≤ (e + 1023 + 52).toNat + 1
  omega

theorem pack_of_lt {c : ℕ} {e : ℤ} (he : e ≤ 971) (hc : 0 < c) (hlt : c < 2 ^ 52) (sign : Sign) :
    UnpackedFloat.pack .binary64 (.finite sign c e hc) =
      sign.toBitVec ++ 0#11 ++ BitVec.ofNat 52 c := by
  have hlog : c.log2 < 52 := (Nat.log2_lt hc.ne').2 hlt
  refine (if_neg ?_).trans (if_neg ?_)
  · change ¬ 2048 ≤ (e + 1023 + 52).toNat + 1
    omega
  · change ¬ c.log2 + 1 = 53
    omega

/-- The word of a number that is not zero. It may be infinite. -/
theorem pack_finite_ne_zero {c : ℕ} {e : ℤ} (h : Canonical c e) (hc : 0 < c) (sign : Sign) :
    (UnpackedFloat.pack .binary64 (.finite sign c e hc)).toNat % 2 ^ 63 ≠ 0 := by
  rcases le_or_gt e 971 with he | he
  · rcases le_or_gt (2 ^ 52) c with hlow | hlt
    · have hn : Normal c e := ⟨hlow, h.high, h.least, he⟩
      have hleast := h.least
      have hbit := signBit_le sign
      rw [toNat_pack hn]
      simp only [word]
      omega
    · rw [pack_of_lt he hc hlt]
      simp only [toNat_append_eq_add, BitVec.toNat_ofNat]
      omega
  · rw [pack_of_exponent_gt he]
    cases sign <;> decide

theorem pack_normalize_eq_zero_iff {d : ℤ} {e : ℤ} (he : -1074 ≤ e) :
    (UnpackedFloat.pack .binary64 (.normalize .binary64 d e .positive)).toNat % 2 ^ 63 = 0 ↔
      d = 0 := by
  have hround {m : ℕ} (hm : 0 < m) (sign : Sign) :
      (UnpackedFloat.pack .binary64 (.round .binary64 sign m e)).toNat % 2 ^ 63 ≠ 0 := by
    obtain ⟨c, t, hc, hcanonical, heq⟩ := round_rounds hm he sign
    rw [heq]
    exact pack_finite_ne_zero hcanonical hc sign
  rw [UnpackedFloat.normalize]
  rcases lt_trichotomy d 0 with h | rfl | h
  · simp only [Int.compare_eq_lt.2 h]
    exact iff_of_false (hround (by omega) _) h.ne
  · exact iff_of_true rfl rfl
  · simp only [Int.compare_eq_gt.2 h]
    exact iff_of_false (hround (by omega) _) h.ne'

/-- The value of a number, counted in units of a digit that is not above its last. -/
theorem Parts.value_eq_apply {p : Parts} {e : ℤ} (h : e ≤ p.exponent) :
    p.value = ((signOf p.negative).apply (p.mantissa <<< (p.exponent - e).toNat : ℕ) : ℤ) *
      2 ^ e := by
  obtain ⟨u, hu⟩ : ∃ u : ℕ, p.exponent = u + e := ⟨(p.exponent - e).toNat, by omega⟩
  have hsub : (p.exponent - e).toNat = u := by omega
  rw [value, hsub, hu, zpow_add₀ (by norm_num), zpow_natCast, Nat.shiftLeft_eq]
  cases p.negative with
  | false =>
    change _ = (((p.mantissa * 2 ^ u : ℕ) : ℤ) : ℚ) * 2 ^ e
    push_cast
    ring
  | true =>
    change _ = ((-((p.mantissa * 2 ^ u : ℕ) : ℤ) : ℤ) : ℚ) * 2 ^ e
    rw [if_pos rfl]
    push_cast
    ring

theorem sub_beq_zero_iff_pack {x y : Float} : (x - y == 0.0) = true ↔
    (UnpackedFloat.pack .binary64
      (.sub .binary64 x.toModel.unpack y.toModel.unpack)).toNat % 2 ^ 63 = 0 := beq_zero_iff

/-- The difference of two numbers is rounded, but it is zero only if they have the same value. -/
theorem sub_beq_zero_iff {x y : Float} {p q : Parts} (hx : parts? x = some p)
    (hy : parts? y = some q) : (x - y == 0.0) = true ↔ p.value = q.value := by
  have hcx := canonical_of_parts? hx
  have hcy := canonical_of_parts? hy
  rw [sub_beq_zero_iff_pack]
  rcases unpack_of_parts? hx with ⟨hm, hux⟩ | ⟨hm, hux⟩ <;>
    rcases unpack_of_parts? hy with ⟨hm', huy⟩ | ⟨hm', huy⟩ <;> rw [hux, huy]
  · rw [Parts.value_eq_zero_iff.2 hm, Parts.value_eq_zero_iff.2 hm']
    cases p.negative <;> cases q.negative <;> exact iff_of_true rfl rfl
  · rw [Parts.value_eq_zero_iff.2 hm]
    have hne : (0 : ℚ) ≠ q.value := fun h => hm'.ne' (Parts.value_eq_zero_iff.1 h.symm)
    exact iff_of_false (pack_finite_ne_zero hcy hm' _) hne
  · rw [Parts.value_eq_zero_iff.2 hm', Parts.value_eq_zero_iff]
    exact iff_of_false (pack_finite_ne_zero hcx hm _) hm.ne'
  · obtain ⟨e, he⟩ : ∃ e, e = min p.exponent q.exponent := ⟨_, rfl⟩
    have hleast : -1074 ≤ e := he ▸ le_min hcx.least hcy.least
    have hpow : (2 : ℚ) ^ e ≠ 0 := by positivity
    rw [Parts.value_eq_apply (he ▸ min_le_left _ _), Parts.value_eq_apply (he ▸ min_le_right _ _),
      mul_left_inj' hpow, Int.cast_inj, he]
    rw [he] at hleast
    exact (pack_normalize_eq_zero_iff hleast).trans sub_eq_zero

/-! ## Whole numbers -/

theorem parts?_of_toNat {x : Float} {c : ℕ} {e : ℤ} {negative : Bool} (h : Normal c e)
    (hx : x.toBits.toNat = signBit (signOf negative) * 2 ^ 63 + word c e) :
    parts? x = some ⟨negative, c, e⟩ := by
  have hlow := h.low
  have hhigh := h.high
  have hleast := h.least
  have hgreatest := h.greatest
  have hbit := signBit_le (signOf negative)
  simp only [word] at hx
  cases hp : parts? x with
  | none =>
    have := power_of_parts?_eq_none hp
    omega
  | some p =>
    obtain ⟨negative', m, e'⟩ := p
    obtain ⟨hneg, hpower, ⟨hzero, hm, he⟩ | ⟨hpos, hm, he⟩⟩ := parts?_eq_some hp
    · omega
    · simp only at hneg hm he
      have hsign : negative' = negative := by
        rw [hneg, isNegative]
        cases negative with
        | false =>
          have hzero : signBit (signOf false) = 0 := rfl
          exact beq_eq_false_iff_ne.2 (by change _ / 2 ^ 63 ≠ 1; omega)
        | true =>
          have hone : signBit (signOf true) = 1 := rfl
          exact beq_iff_eq.2 (by change _ / 2 ^ 63 = 1; omega)
      rw [hsign, Option.some_inj, Parts.mk.injEq]
      exact ⟨rfl, by omega, by omega⟩

theorem Normal.parts?_number {c : ℕ} {e : ℤ} (h : Normal c e) :
    parts? h.number = some ⟨false, c, e⟩ := parts?_of_toNat h (toNat_pack h .positive)

theorem Scaled.mul_zpow_eq {k c t : ℕ} (h : Scaled k c t) : (c : ℚ) * 2 ^ ((t : ℤ) - 52) = k := by
  have heq : (c : ℚ) * 2 ^ t = k * 2 ^ 52 := by exact_mod_cast h.eq
  rw [zpow_sub₀ (by norm_num), zpow_natCast, ← mul_div_assoc, heq]
  exact mul_div_cancel_right₀ _ (by norm_num)

/-- A natural number of at most 53 bits is its own value. -/
theorem parts?_ofNat {k : ℕ} (hk : k ≤ 2 ^ 53) :
    ∃ p, parts? (Float.ofNat k) = some p ∧ p.value = k := by
  rcases Nat.eq_zero_or_pos k with rfl | hpos
  · rw [Nat.cast_zero]
    exact parts?_zero
  · obtain ⟨c, t, h⟩ := exists_scaled hpos hk
    refine ⟨_, h.ofNat_eq ▸ h.normal.parts?_number, ?_⟩
    rw [Parts.value_of_not_neg (by simp)]
    exact h.mul_zpow_eq

theorem parts?_toFloat {q : ℕ} (hq : q < 2 ^ 53) (negative : Bool) :
    ∃ p, parts? (Parts.toFloat ⟨negative, q, 0⟩) = some p ∧
      p.value = (⟨negative, q, 0⟩ : Parts).value := by
  rcases Nat.eq_zero_or_pos q with rfl | hpos
  · refine ⟨⟨negative, 0, -1074⟩, by cases negative <;> rfl, ?_⟩
    rw [Parts.value_eq_zero_iff.2 rfl, Parts.value_eq_zero_iff.2 rfl]
  · obtain ⟨c, t, h⟩ := exists_scaled hpos hq.le
    have hbits := (congrArg (fun b => b.toBits.toNat) (h.toFloat_parts hq negative)).trans
      (toNat_pack h.normal (signOf negative))
    refine ⟨_, parts?_of_toNat h.normal hbits, ?_⟩
    rw [Parts.value, Parts.value, mul_assoc, h.mul_zpow_eq, zpow_zero, mul_one]

theorem Parts.exists_value_eq {p : Parts} (h : 0 ≤ p.exponent) : ∃ z : ℤ, p.value = z := by
  refine ⟨(signOf p.negative).apply (p.mantissa <<< (p.exponent - 0).toNat : ℕ), ?_⟩
  rw [value_eq_apply h, zpow_zero, mul_one]

theorem Parts.abs_value (p : Parts) : |p.value| = p.mantissa * 2 ^ p.exponent := by
  have hsign : |(if p.negative then -1 else 1 : ℚ)| = 1 := by split_ifs <;> simp
  rw [value, mul_assoc, abs_mul, hsign, one_mul]
  exact abs_of_nonneg (by positivity)

/-- A number less itself is zero if it is finite, and not a number otherwise. -/
theorem sub_self_beq_zero_iff {x : Float} : (x - x == 0.0) = true ↔ ∃ p, parts? x = some p := by
  cases hx : parts? x with
  | some p => exact iff_of_true ((sub_beq_zero_iff hx hx).2 rfl) ⟨p, rfl⟩
  | none =>
    refine iff_of_false ?_ (by simp)
    rw [sub_beq_zero_iff_pack]
    rcases unpack_of_parts?_eq_none hx with hux | ⟨sign, hux⟩ <;> rw [hux]
    · decide
    · cases sign <;> decide

/-- A number without fractional digits is a whole number. -/
theorem fract_beq_zero_iff {x : Float} :
    (fract x == 0.0) = true ↔ ∃ p, parts? x = some p ∧ ∃ z : ℤ, p.value = z := by
  rw [fract, trunc]
  cases hx : parts? x with
  | none => rw [sub_self_beq_zero_iff]; simp [hx]
  | some p =>
    simp only [Option.some_inj, exists_eq_left']
    have habs (z : ℤ) (hz : p.value = z) : (p.mantissa : ℚ) * 2 ^ p.exponent = z.natAbs := by
      rw [← p.abs_value, hz, Nat.cast_natAbs, Int.cast_abs]
    by_cases he : 0 ≤ p.exponent
    · rw [if_pos he, sub_self_beq_zero_iff]
      exact iff_of_true ⟨p, hx⟩ (Parts.exists_value_eq he)
    · have hq : shift p.mantissa p.exponent = p.mantissa / 2 ^ (-p.exponent).toNat := if_neg he
      have hlt : shift p.mantissa p.exponent < 2 ^ 53 :=
        hq ▸ (Nat.div_le_self _ _).trans_lt (mantissa_lt hx)
      obtain ⟨r, hr, hvalue⟩ := parts?_toFloat hlt p.negative
      rw [if_neg he, sub_beq_zero_iff hx hr, hvalue]
      constructor
      · intro heq
        rw [heq]
        exact Parts.exists_value_eq le_rfl
      · rintro ⟨z, hz⟩
        have hmod := (Parts.mul_zpow_eq_iff_of_neg (not_le.1 he)).1 (habs z hz)
        rw [Parts.value, Parts.value, mul_assoc, habs z hz, hq, hmod.2, zpow_zero, mul_one]

/-! ## Counting -/

theorem ofNat_le_ofNat {i j : ℕ} (hi : i ≤ 2 ^ 53) (hj : j ≤ 2 ^ 53) :
    Float.ofNat i ≤ Float.ofNat j ↔ i ≤ j := by
  obtain ⟨p, hp, hvp⟩ := parts?_ofNat hi
  obtain ⟨q, hq, hvq⟩ := parts?_ofNat hj
  rw [le_iff_value hp hq, hvp, hvq, Nat.cast_le]

/-- What is not below `2 ^ 53` is not below a smaller number either. It may be infinite. -/
theorem ofNat_le_of_le {x : Float} (hx : Float.ofNat (2 ^ 53) ≤ x) {i : ℕ} (hi : i ≤ 2 ^ 53) :
    Float.ofNat i ≤ x := by
  obtain ⟨p, hp, hvp⟩ := parts?_ofNat hi
  obtain ⟨q, hq, hvq⟩ := parts?_ofNat (k := 2 ^ 53) le_rfl
  cases hparts : parts? x with
  | some r =>
    rw [le_iff_value hq hparts, hvq] at hx
    rw [le_iff_value hp hparts, hvp]
    exact hx.trans' (by exact_mod_cast hi)
  | none =>
    rw [le_iff_unpack] at hx ⊢
    rcases unpack_of_parts?_eq_none hparts with hux | ⟨sign, hux⟩
    · rw [hux] at hx
      exact absurd hx (by decide)
    · rw [hux] at hx ⊢
      cases sign with
      | negative => exact absurd hx (by decide)
      | positive => rcases unpack_of_parts? hp with ⟨-, hup⟩ | ⟨_, hup⟩ <;> rw [hup] <;> rfl

/-- Counting from one to `c` ends with `n`. Nothing is counted if `c` is below one or not a
number. -/
def CountsTo (c : Float) (n : ℕ) : Prop := if 1.0 ≤ c then c = Float.ofNat n else n = 0

/-- A rounded number below `2 ^ 53` is a number to count to, and so is what is not a number. -/
theorem exists_countsTo_iff {x : Float} :
    (∃ n < 2 ^ 53, CountsTo (round x) n) ↔ ¬ Float.ofNat (2 ^ 53) ≤ round x := by
  unfold CountsTo
  by_cases hone : 1.0 ≤ round x
  · simp only [if_pos hone]
    constructor
    · rintro ⟨n, hn, heq⟩
      rw [heq, ofNat_le_ofNat le_rfl hn.le]
      omega
    · intro hnot
      rcases round_cases x with hbelow | ⟨n, -, hn, heq⟩ | hgt
      · exact absurd hone hbelow
      · rw [heq, ofNat_le_ofNat le_rfl hn] at hnot
        exact ⟨n, by omega, heq⟩
      · exact absurd (le_of_lt hgt) hnot
  · simp only [if_neg hone]
    refine iff_of_true ⟨0, by omega, rfl⟩ fun hle => hone ?_
    exact ofNat_le_of_le hle (i := 1) (by omega)

end WorldScript.Number
