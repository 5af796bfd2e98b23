import MarketFeed.Proofs.Number.Arithmetic
import MarketFeed.Proofs.Number.Digits

/-!
# Decimals as the nearest doubles

A decimal is turned into a double by one multiplication with a power of ten, or one division by it.
Both are exact up to the rounding at the end: short digits and small powers are doubles themselves,
and otherwise the operation is done on numbers of any size. So the result is the double that the
decimal rounds to. This holds of every decimal, for those too large or too small for the operation
are told from the count of their digits.
-/

namespace MarketFeed.Number

open Float.Model Float.Model.UnpackedFloat

variable {c k : Nat} {x : Float} {v : ℚ}

/-- A power of ten is one or more. -/
theorem one_le_ten_pow (k : Nat) : (1 : ℚ) ≤ 10 ^ k := one_le_pow₀ (by norm_num)

/-! ## Short digits and small powers -/

/-- The powers of ten up to `10 ^ 22` are doubles, for `5 ^ 22` has 52 binary digits. -/
theorem IsRounded.absValue_ten_pow (h : IsRounded x (10 ^ k)) (hk : k ≤ 22) :
    absValue x = 10 ^ k := by
  have hfive : 5 ^ k ≤ 2 ^ 53 := (Nat.pow_le_pow_right (by decide) hk).trans (by decide)
  have hsplit : (10 : ℚ) ^ k = (5 ^ k : Nat) * 2 ^ (k : Int) := by
    rw [zpow_natCast, Nat.cast_pow, ← mul_pow]
    norm_num
  rw [hsplit] at h ⊢
  exact h.absValue_exact hfive (by omega)

/-- The powers of ten that stand in a table are rounded. -/
theorem isRounded_table (k : Nat) (hk : k < Float.exactlyRepresentablePowersOfTen.size) :
    IsRounded Float.exactlyRepresentablePowersOfTen[k] (Decimal.mk 1 k).value := by
  revert k
  decide +kernel

/-- Digits that are a double are kept when they are rounded. -/
theorem absValue_toFloat_of_lt (hc : 0 < c) (hlt : c < 2 ^ 53) :
    IsRounded c.toUInt64.toFloat c ∧ absValue c.toUInt64.toFloat = c := by
  have hround := isRounded_toFloat hc (hlt.le.trans (by decide))
  have hunits : (c : ℚ) = c * 2 ^ (0 : Int) := by rw [zpow_zero, mul_one]
  refine ⟨hround, ?_⟩
  rw [hunits] at hround
  exact (hround.absValue_exact hlt.le (by decide)).trans hunits.symm

/-! ## Digits and a power of ten -/

/-- A whole number times a power of ten is rounded. -/
theorem roundsTo_ofScientific_mul (hc : 0 < c) (hk : k ≤ 2 ^ 11) :
    RoundsTo (Float.ofScientific c false k) (c * 10 ^ k) := by
  have hone : (1 : ℚ) ≤ c := by exact_mod_cast hc
  by_cases hfast : c < 2 ^ 53 ∧ k ≤ 22
  · obtain ⟨hround, hvalue⟩ := absValue_toFloat_of_lt hc hfast.1
    have hsize : k < Float.exactlyRepresentablePowersOfTen.size := Nat.lt_succ_of_le hfast.2
    have hpower : IsRounded Float.exactlyRepresentablePowersOfTen[k] (10 ^ k) := by
      simpa [Decimal.value] using isRounded_table k hsize
    have hproduct := hround.mul hpower hone (one_le_ten_pow k)
    rw [hvalue, hpower.absValue_ten_pow hfast.2] at hproduct
    rwa [Float.ofScientific, dif_pos hfast]
  · have hroom : ¬(k : Int) > 2 ^ Format.binary64.exponentBits := by
      change ¬(k : Int) > 2 ^ 11
      omega
    have hleast : ¬(k : Int) < -((2 ^ Format.binary64.exponentBits : Int) + c.log2) := by
      change ¬(k : Int) < -(2 ^ 11 + c.log2)
      omega
    have hmany : 2 ^ 52 ≤ c <<< 53 := by
      rw [Nat.shiftLeft_eq]
      exact (by decide : 2 ^ 52 ≤ 1 * 2 ^ 53).trans (Nat.mul_le_mul_right _ hc)
    have hvalue : (c * 10 ^ k : ℚ) = (c <<< 53 : Nat) * 2 ^ (-53 : Int) *
        ((10 ^ k : Nat) * 2 ^ (0 : Int)) := by
      rw [Nat.shiftLeft_eq, zpow_neg, zpow_ofNat, zpow_zero]
      push_cast
      field_simp
      norm_num
    rw [Float.ofScientific, dif_neg hfast, hvalue]
    change RoundsTo (.ofModel (.pack (UnpackedFloat.ofScientific Format.binary64 c (k : Int)))) _
    rw [UnpackedFloat.ofScientific, dif_neg hc.ne', if_neg hroom, if_neg hleast,
      if_pos (Int.natCast_nonneg k)]
    exact roundsTo_pack_mul hmany (hmany.trans_lt' (by decide)) (Nat.pow_pos (by decide))

/-- A whole number divided by a power of ten is rounded. -/
theorem roundsTo_ofScientific_div (hc : 0 < c) (hpos : 0 < k) (hk : k ≤ 2 ^ 11 + c.log2) :
    RoundsTo (Float.ofScientific c true k) (c / 10 ^ k) := by
  by_cases hfast : c < 2 ^ 53 ∧ k ≤ 22
  · obtain ⟨hround, hvalue⟩ := absValue_toFloat_of_lt hc hfast.1
    have hone : (1 : ℚ) ≤ c := by exact_mod_cast hc
    have hsize : k < Float.exactlyRepresentablePowersOfTen.size := Nat.lt_succ_of_le hfast.2
    have hpower : IsRounded Float.exactlyRepresentablePowersOfTen[k] (10 ^ k) := by
      simpa [Decimal.value] using isRounded_table k hsize
    have hquotient :=
      hround.div hpower (hround.absValue_pos hone) (hpower.absValue_pos (one_le_ten_pow k))
    rw [hvalue, hpower.absValue_ten_pow hfast.2] at hquotient
    rwa [Float.ofScientific, dif_pos hfast]
  · have hroom : ¬-(k : Int) > 2 ^ Format.binary64.exponentBits := by
      change ¬-(k : Int) > 2 ^ 11
      omega
    have hleast : ¬-(k : Int) < -((2 ^ Format.binary64.exponentBits : Int) + c.log2) := by
      change ¬-(k : Int) < -(2 ^ 11 + c.log2)
      omega
    have hvalue : (c / 10 ^ k : ℚ) =
        (c : Nat) * 2 ^ (0 : Int) / ((10 ^ (- -(k : Int)).toNat : Nat) * 2 ^ (0 : Int)) := by
      rw [zpow_zero, neg_neg, Int.toNat_natCast]
      push_cast
      ring
    have hnegative : Int.negOfNat k = -(k : Int) := Int.negOfNat_eq
    rw [Float.ofScientific, dif_neg hfast, hvalue]
    change RoundsTo
      (.ofModel (.pack (UnpackedFloat.ofScientific Format.binary64 c (Int.negOfNat k)))) _
    rw [hnegative, UnpackedFloat.ofScientific, dif_neg hc.ne', if_neg hroom, if_neg hleast,
      if_neg (by omega)]
    exact roundsTo_pack_div hc (Nat.pow_pos (by decide))

/-- A power of ten is rounded. -/
theorem isRounded_tenTo (hk : k ≤ 308) : IsRounded (tenTo k) (10 ^ k) := by
  have hround := roundsTo_ofScientific_mul (c := 1) one_pos (hk.trans (by decide))
  rw [Nat.cast_one, one_mul] at hround
  exact hround.finite ((pow_le_pow_right₀ (by norm_num) hk).trans_lt ten_pow_lt_overflowLimit)

/-! ## Any decimal -/

/-- A number of at most half of the least double is rounded to zero. -/
theorem isRounded_zero (hv : 0 ≤ v) (h : v ≤ 2 ^ (-1074 : Int) / 2) : IsRounded 0 v := by
  have hzero : Shape.ofFloat 0 = .finite false 0 (-1074) := by decide +kernel
  obtain ⟨t, rfl⟩ := exists_units v (-1074)
  have hunit : (0 : ℚ) < 2 ^ (-1074 : Int) := zpow_pos two_pos _
  have hnonneg : 0 ≤ t := nonneg_of_mul_nonneg_left hv hunit
  have hhalf : t ≤ 1 / 2 := by
    refine le_of_mul_le_mul_right (h.trans_eq ?_) hunit
    ring
  have hnearest : IsNearest t 0 :=
    ⟨by push_cast; linarith, by push_cast; linarith, fun _ => rfl⟩
  exact ⟨0, -1074, hzero, Rounding.covers_of_isNearest hnearest hnonneg nofun⟩

/-- A positive decimal is at least the power of ten that its first digit counts, and less than the
next one. -/
theorem Decimal.value_bounds (hc : 0 < c) (p : Int) :
    10 ^ (p + (toDigits c).length - 1) ≤ (Decimal.mk c p).value ∧
      (Decimal.mk c p).value < 10 ^ (p + (toDigits c).length) := by
  have hten : (10 : ℚ) ≠ 0 := by norm_num
  have hpos : (0 : ℚ) < 10 ^ p := zpow_pos (by norm_num) p
  have hsome : 0 < (toDigits c).length := List.length_pos_iff.mpr (toDigits_ne_nil c)
  have hlow : (10 : ℚ) ^ ((toDigits c).length - 1) ≤ c := by exact_mod_cast pow_le_of_toDigits hc
  have hhigh : (c : ℚ) < 10 ^ (toDigits c).length := by exact_mod_cast lt_pow_toDigits c
  have hfirst : (10 : ℚ) ^ (p + (toDigits c).length - 1) =
      10 ^ ((toDigits c).length - 1) * 10 ^ p := by
    rw [← zpow_natCast, ← zpow_add₀ hten]
    congr 1
    omega
  have hnext : (10 : ℚ) ^ (p + (toDigits c).length) = 10 ^ (toDigits c).length * 10 ^ p := by
    rw [add_comm, zpow_add₀ hten, zpow_natCast]
  rw [hfirst, hnext]
  exact ⟨mul_le_mul_of_nonneg_right hlow hpos.le, mul_lt_mul_of_pos_right hhigh hpos⟩

/-- A number has no more decimal digits than binary ones. -/
theorem length_toDigits_le_log2 (hc : 0 < c) : (toDigits c).length ≤ c.log2 + 1 := by
  have hpow : 2 ^ ((toDigits c).length - 1) ≤ c :=
    (Nat.pow_le_pow_left (by decide) _).trans (pow_le_of_toDigits hc)
  have := (Nat.le_log2 hc.ne').mpr hpow
  omega

/-- Numbers with a first digit beyond the doubles are beyond the largest double. -/
theorem overflowLimit_le_ten_pow : overflowLimit ≤ 10 ^ (310 : Int) := by
  have hnat : (2 ^ 54 - 1) * 2 ^ 970 ≤ 10 ^ 310 := by decide +kernel
  have hcast : (((2 ^ 54 - 1) * 2 ^ 970 : Nat) : ℚ) ≤ (10 ^ 310 : Nat) := Nat.cast_le.mpr hnat
  rw [Nat.cast_pow, Nat.cast_mul, Nat.cast_pow, Nat.cast_sub (by decide)] at hcast
  push_cast at hcast
  rwa [overflowLimit, zpow_ofNat, zpow_ofNat]

/-- Numbers with no digit among those of the doubles are less than half of the least double. -/
theorem ten_pow_le_half_least : (10 : ℚ) ^ (-331 : Int) ≤ 2 ^ (-1074 : Int) / 2 := by
  have hnat : 2 ^ 1074 * 2 ≤ 10 ^ 331 := by decide +kernel
  have hcast : ((2 ^ 1074 * 2 : Nat) : ℚ) ≤ (10 ^ 331 : Nat) := Nat.cast_le.mpr hnat
  simp only [Nat.cast_mul, Nat.cast_pow, Nat.cast_ofNat] at hcast
  rw [zpow_neg, zpow_ofNat, zpow_neg, zpow_ofNat, ← one_div, ← one_div, div_div]
  exact one_div_le_one_div_of_le (by positivity) hcast

/-- Every decimal is rounded. -/
theorem roundsTo_nearest (c : Nat) (p : Int) : RoundsTo (nearest c p) (Decimal.mk c p).value := by
  rcases Nat.eq_zero_or_pos c with rfl | hc
  · have hvalue : (Decimal.mk 0 p).value = 0 := by simp [Decimal.value]
    rw [hvalue]
    exact (isRounded_zero le_rfl (half_pos (zpow_pos two_pos _)).le).roundsTo
  obtain ⟨hlow, hhigh⟩ := Decimal.value_bounds hc p
  have hdigits := length_toDigits_le_log2 hc
  have hsome : 0 < (toDigits c).length := List.length_pos_iff.mpr (toDigits_ne_nil c)
  unfold nearest
  dsimp only
  rw [if_neg hc.ne']
  split_ifs with hlarge hsmall hp
  · have hinfinite : Shape.ofFloat (1.0 / 0.0) = .infinite false := by decide +kernel
    have hlimit : overflowLimit ≤ (Decimal.mk c p).value := by
      refine (overflowLimit_le_ten_pow.trans ?_).trans hlow
      exact zpow_le_zpow_right₀ (by norm_num) (by omega)
    exact ⟨fun h => absurd hlimit h.not_ge, fun _ => hinfinite⟩
  · refine (isRounded_zero ((zpow_pos (by norm_num) _).le.trans hlow) ?_).roundsTo
    refine (hhigh.le.trans ?_).trans ten_pow_le_half_least
    exact zpow_le_zpow_right₀ (by norm_num) (by omega)
  · obtain ⟨k, rfl⟩ := Int.eq_ofNat_of_zero_le hp
    rw [Decimal.value, zpow_natCast, Int.toNat_natCast]
    exact roundsTo_ofScientific_mul hc (by omega)
  · obtain ⟨k, hk⟩ := Int.eq_ofNat_of_zero_le (by omega : 0 ≤ -p)
    obtain rfl : p = -k := by omega
    rw [Decimal.value, zpow_neg, zpow_natCast, ← div_eq_mul_inv, neg_neg, Int.toNat_natCast]
    exact roundsTo_ofScientific_div hc (by omega) (by omega)

end MarketFeed.Number
