import MarketFeed.Proofs.Number.Layout
import MarketFeed.Proofs.Number.Nearest

/-!
# Reading by scaling

A document reads a numeral by rounding its digits to a double and multiplying or dividing that by
a rounded power of ten, and the result is rounded again. Main statements: what is read is the
rounding of a number near to the one that is scaled, it is less than six units in the last place
from a double that this one rounds to, and it is the double itself where the digits and the power of
ten are doubles.
-/

namespace MarketFeed.Number

variable {m n c k : Nat} {q p : Int} {x y : Float} {v w : ℚ}

/-! ## The steps of scaling -/

/-- What is read by scaling is the double that the number rounds to, unless it is refused because
the number is beyond the largest double. -/
inductive ScalesTo (c : Nat) (p : Int) (v : ℚ) : Prop
  | accepted {y : Float} (h : scale? c p = some y) (hround : IsRounded y v)
  | refused (h : scale? c p = none) (hlimit : overflowLimit ≤ v)

/-- What was read is the double that the number rounds to. -/
theorem ScalesTo.isRounded (h : ScalesTo c p v) (hy : scale? c p = some y) : IsRounded y v := by
  cases h with
  | accepted h hround =>
    obtain rfl := Option.some.inj (hy.symm.trans h)
    exact hround
  | refused h => cases hy.symm.trans h

/-- A number that is not beyond the largest double is read. -/
theorem ScalesTo.exists_isRounded (h : ScalesTo c p v) (hlimit : v < overflowLimit) :
    ∃ y, scale? c p = some y ∧ IsRounded y v := by
  cases h with
  | accepted h hround => exact ⟨_, h, hround⟩
  | refused _ hlarge => exact absurd hlimit hlarge.not_gt

/-- A power of ten that is not negative is multiplied with. -/
theorem scalesTo_product (hc : 0 < c) (hword : c ≤ wordMax) (hk : k ≤ 308) :
    ScalesTo c k (absValue c.toUInt64.toFloat * absValue (tenTo k)) := by
  have hone : (1 : ℚ) ≤ c := by exact_mod_cast hc
  have hround := (isRounded_toFloat hc hword).mul (isRounded_tenTo hk) hone (one_le_ten_pow k)
  have hscale : scale? c k =
      if isFinite (c.toUInt64.toFloat * tenTo k) then some (c.toUInt64.toFloat * tenTo k)
      else none := by
    unfold scale?
    dsimp only
    rw [if_pos (Int.natCast_nonneg k), if_pos (by omega), Int.toNat_natCast]
  by_cases hlimit : absValue c.toUInt64.toFloat * absValue (tenTo k) < overflowLimit
  · obtain ⟨m, q, hy, -⟩ := id (hround.finite hlimit)
    exact .accepted (by rw [hscale, isFinite, hy]; rfl) (hround.finite hlimit)
  · have hinfinite := hround.infinite (not_lt.mp hlimit)
    exact .refused (by rw [hscale, isFinite, hinfinite]; rfl) (not_lt.mp hlimit)

/-- A quotient of a rounded number by a rounded power of ten. -/
theorem IsRounded.div_tenTo (hx : IsRounded x v) (hv : 0 < absValue x)
    (hmost : absValue x ≤ 10 ^ 63) (hk : k ≤ 308) :
    IsRounded (x / tenTo k) (absValue x / absValue (tenTo k)) := by
  have hten := isRounded_tenTo hk
  have herror := abs_le.mp (hten.abs_sub_le (one_le_ten_pow k))
  have hpower := one_le_ten_pow k
  have hhalf : 1 / 2 ≤ absValue (tenTo k) := by linarith [herror.1]
  have hpos := hten.absValue_pos hpower
  refine (hx.div hten hv hpos).finite (lt_overflowLimit_of_le ?_)
  rw [div_le_iff₀ hpos]
  linarith

/-- A word is less than a power of ten. -/
theorem cast_le_of_word (hword : c ≤ wordMax) : (c : ℚ) ≤ 10 ^ 20 := by
  have : c ≤ 10 ^ 20 := hword.trans (by decide)
  exact_mod_cast this

/-- A word as a double is at most a power of ten. -/
theorem absValue_toFloat_le (hc : 0 < c) (hword : c ≤ wordMax) :
    absValue c.toUInt64.toFloat ≤ 10 ^ 63 := by
  have hone : (1 : ℚ) ≤ c := by exact_mod_cast hc
  have hmost := cast_le_of_word hword
  have herror := abs_le.mp ((isRounded_toFloat hc hword).abs_sub_le hone)
  linarith [herror.2]

/-- A negative power of ten is divided by. -/
theorem scalesTo_quotient (hc : 0 < c) (hword : c ≤ wordMax) (hpos : 0 < k) (hk : k ≤ 308) :
    ScalesTo c (-k) (absValue c.toUInt64.toFloat / absValue (tenTo k)) := by
  have hone : (1 : ℚ) ≤ c := by exact_mod_cast hc
  have hround := isRounded_toFloat hc hword
  have hscale : scale? c (-k) = some (c.toUInt64.toFloat / tenTo k) := by
    unfold scale?
    dsimp only
    rw [if_neg (by omega), if_pos (by omega), neg_neg, Int.toNat_natCast]
  exact .accepted hscale
    (hround.div_tenTo (hround.absValue_pos hone) (absValue_toFloat_le hc hword) hk)

/-- A power of ten below the least one is divided by in two steps. -/
theorem scale?_quotients (c : Nat) (hpos : 0 < k) (hk : k ≤ 308) :
    scale? c (-308 - k) = some (c.toUInt64.toFloat / tenTo 308 / tenTo k) := by
  have hrest : (-(-308 - (k : Int)) - 308).toNat = k := by omega
  unfold scale?
  dsimp only
  rw [if_neg (by omega), if_neg (by omega), if_pos (by omega), hrest]

/-! ## Zero -/

/-- The double zero, as every step of scaling leaves it. -/
def IsZero (x : Float) : Prop := Shape.ofFloat x = .finite false 0 (-1074)

/-- The double zero has this shape. -/
theorem isZero_zero : IsZero 0 := by
  unfold IsZero
  decide +kernel

/-- There is one such double. -/
theorem IsZero.eq (hx : IsZero x) : x = 0 := eq_of_ofFloat hx isZero_zero

/-- A power of ten is a positive double. -/
theorem exists_tenTo (hk : k ≤ 308) :
    ∃ m q, Shape.ofFloat (tenTo k) = .finite false m q ∧ 0 < m := by
  obtain ⟨m, q, hten, hm⟩ := (isRounded_tenTo hk).exists_hidden (one_le_ten_pow k)
  exact ⟨m, q, hten, hm.trans_lt' (by decide)⟩

/-- Zero times a power of ten is zero. -/
theorem IsZero.mul_tenTo (hx : IsZero x) (hk : k ≤ 308) : IsZero (x * tenTo k) := by
  obtain ⟨m, q, hten, hm⟩ := exists_tenTo hk
  change Shape.ofFloat (.ofModel (.pack (Float.Model.UnpackedFloat.mul .binary64 x.toModel.unpack
    (tenTo k).toModel.unpack))) = _
  rw [unpack_eq_magnitude hx, unpack_eq_magnitude hten, magnitude_of_pos _ hm]
  exact ofFloat_pack false (isDouble_of_ofBits hx)

/-- Zero divided by a power of ten is zero. -/
theorem IsZero.div_tenTo (hx : IsZero x) (hk : k ≤ 308) : IsZero (x / tenTo k) := by
  obtain ⟨m, q, hten, hm⟩ := exists_tenTo hk
  change Shape.ofFloat (.ofModel (.pack (Float.Model.UnpackedFloat.div .binary64 x.toModel.unpack
    (tenTo k).toModel.unpack))) = _
  rw [unpack_eq_magnitude hx, unpack_eq_magnitude hten, magnitude_of_pos _ hm]
  exact ofFloat_pack false (isDouble_of_ofBits hx)

/-- The word zero as a double. -/
theorem isZero_toFloat : IsZero (0 : Nat).toUInt64.toFloat := by
  unfold IsZero
  decide +kernel

/-- Zero is read as zero, whatever power of ten it counts. -/
theorem scale?_zero (p : Int) : scale? 0 p = some 0 := by
  unfold scale?
  dsimp only
  split_ifs with hpos hgreatest hfinite hzero hquotient hquotients
  · rw [(isZero_toFloat.mul_tenTo (by omega)).eq]
  · rw [isFinite, isZero_toFloat.mul_tenTo (by omega)] at hfinite
    exact absurd rfl hfinite
  · rw [isZero_toFloat.eq]
  · exact absurd rfl hzero
  · rw [(isZero_toFloat.div_tenTo (by omega)).eq]
  · rw [((isZero_toFloat.div_tenTo le_rfl).div_tenTo (by omega)).eq]
  · rfl

/-! ## Errors -/

section Errors

variable {a b : ℚ}

/-- The error of a product. -/
theorem abs_mul_sub_mul_le {x v y w : ℚ} (hv : 0 ≤ v) (hw : 0 ≤ w) (hx : |x - v| ≤ a)
    (hy : |y - w| ≤ b) : |x * y - v * w| ≤ a * (w + b) + v * b := by
  have hfactor : |y| ≤ w + b := by
    have := abs_add_le w (y - w)
    rw [add_sub_cancel, abs_of_nonneg hw] at this
    linarith
  calc |x * y - v * w| = |(x - v) * y + v * (y - w)| := by congr 1; ring
    _ ≤ |x - v| * |y| + v * |y - w| := by
      have := abs_add_le ((x - v) * y) (v * (y - w))
      rwa [abs_mul, abs_mul, abs_of_nonneg hv] at this
    _ ≤ a * (w + b) + v * b := by
      have := (abs_nonneg _).trans hx
      gcongr

/-- The error of a quotient by a rounded number. -/
theorem abs_div_sub_div_le {x v y w : ℚ} (hv : 0 ≤ v) (hw : 0 < w) (hx : |x - v| ≤ a)
    (hy : |y - w| ≤ w / 2 ^ 53) : |x / y - v / w| ≤ (a + v / 2 ^ 53) * (1 + 1 / 2 ^ 52) / w := by
  have hbounds := abs_le.mp hy
  have hpos : 0 < y := by linarith [hbounds.1]
  have ha : 0 ≤ a := (abs_nonneg _).trans hx
  have hdivisor : 1 / y ≤ (1 + 1 / 2 ^ 52) / w := by
    rw [div_le_div_iff₀ hpos hw]
    nlinarith [hbounds.1]
  have hdifference : x / y - v / w = (x - v) / y + v / w * ((w - y) / y) := by
    field_simp
    ring
  have hfirst : |(x - v) / y| ≤ a * (1 / y) := by
    rw [abs_div, abs_of_pos hpos, div_eq_mul_one_div]
    gcongr
  have hsecond : |v / w * ((w - y) / y)| ≤ v / 2 ^ 53 * (1 / y) := by
    rw [abs_mul, abs_of_nonneg (div_nonneg hv hw.le), abs_div, abs_of_pos hpos, abs_sub_comm]
    calc v / w * (|y - w| / y) ≤ v / w * (w / 2 ^ 53 / y) := by gcongr
      _ = v / 2 ^ 53 * (1 / y) := by field_simp
  calc |x / y - v / w| ≤ a * (1 / y) + v / 2 ^ 53 * (1 / y) := by
        rw [hdifference]
        exact (abs_add_le _ _).trans (add_le_add hfirst hsecond)
    _ = (a + v / 2 ^ 53) * (1 / y) := by ring
    _ ≤ (a + v / 2 ^ 53) * ((1 + 1 / 2 ^ 52) / w) := by gcongr
    _ = (a + v / 2 ^ 53) * (1 + 1 / 2 ^ 52) / w := by ring

end Errors

/-- A number in the interval of a double is at most `2 ^ 53` units of its last place. -/
theorem Rounding.Covers.le_units (h : IsDouble m q) (hcovers : (Rounding.of m q).Covers v) :
    v ≤ 2 ^ 53 * 2 ^ q := by
  obtain ⟨t, rfl⟩ := exists_units v q
  have hm : (m : ℚ) + 1 ≤ 2 ^ 53 := by exact_mod_cast h.significand_lt
  have hhigh := hcovers.isNearest.le_high
  exact mul_le_mul_of_nonneg_right (by linarith) (zpow_pos two_pos q).le

/-- A number that is slightly more than four units from one that rounds to a double is rounded to
less than six units from the double. -/
theorem near_of_close {v' : ℚ} (h : IsDouble m q) (hcovers : (Rounding.of m q).Covers v)
    (hclose : |v' - v| ≤ (4 + 1 / 8) * 2 ^ q) (hy : IsRounded y v') :
    |absValue y - m * 2 ^ q| < 6 * 2 ^ q := by
  obtain ⟨n, r, hy, hcovers'⟩ := hy
  have hunit : (0 : ℚ) < 2 ^ q := zpow_pos two_pos q
  have hfirst := abs_le.mp hclose
  have hlast := abs_le.mp (abs_sub_le_half hcovers)
  have hmost := hcovers.le_units h
  -- The units of the result are at most twice as large.
  have hexponent : r ≤ q + 1 := by
    by_contra hlarge
    obtain ⟨t, rfl⟩ := exists_units v' r
    have hleast : r ≠ -1074 := by
      have := h.least_le
      omega
    have hmany := hcovers'.hidden_le (isDouble_of_ofBits hy) hleast
    have hunits : (4 : ℚ) * 2 ^ q ≤ 2 ^ r := by
      calc (4 : ℚ) * 2 ^ q = 2 ^ (2 + q) := by rw [zpow_add₀ two_ne_zero]; norm_num
        _ ≤ 2 ^ r := zpow_le_zpow_right₀ one_le_two (by omega)
    nlinarith
  have hunits : (2 : ℚ) ^ r ≤ 2 * 2 ^ q :=
    calc (2 : ℚ) ^ r ≤ 2 ^ (1 + q) := zpow_le_zpow_right₀ one_le_two (by omega)
      _ = 2 * 2 ^ q := zpow_one_add₀ two_ne_zero q
  have hmiddle := abs_le.mp (abs_sub_le_half hcovers')
  rw [absValue_eq hy, abs_lt]
  constructor <;> linarith

/-! ## What is read is near -/

/-- The error of a product of a word with a power of ten. -/
theorem abs_product_sub_le (hc : 0 < c) (hword : c ≤ wordMax) (hk : k ≤ 308) :
    |absValue c.toUInt64.toFloat * absValue (tenTo k) - c * 10 ^ k| ≤
      (2 + 1 / 2 ^ 40) / 2 ^ 53 * (c * 10 ^ k) := by
  have hone : (1 : ℚ) ≤ c := by exact_mod_cast hc
  refine (abs_mul_sub_mul_le (by positivity) (by positivity)
    ((isRounded_toFloat hc hword).abs_sub_le hone)
    ((isRounded_tenTo hk).abs_sub_le (one_le_ten_pow k))).trans ?_
  have hpos : (0 : ℚ) ≤ c * 10 ^ k := by positivity
  have : (c : ℚ) / 2 ^ 53 * (10 ^ k + 10 ^ k / 2 ^ 53) + c * (10 ^ k / 2 ^ 53) =
      (2 / 2 ^ 53 + 1 / 2 ^ 106) * (c * 10 ^ k) := by ring
  rw [this]
  exact mul_le_mul_of_nonneg_right (by norm_num) hpos

/-- The error of a quotient of a word by a power of ten. -/
theorem abs_quotient_sub_le (hc : 0 < c) (hword : c ≤ wordMax) (hk : k ≤ 308) :
    |absValue c.toUInt64.toFloat / absValue (tenTo k) - c / 10 ^ k| ≤
      (2 + 1 / 2 ^ 40) / 2 ^ 53 * (c / 10 ^ k) := by
  have hone : (1 : ℚ) ≤ c := by exact_mod_cast hc
  refine (abs_div_sub_div_le (by positivity) (by positivity)
    ((isRounded_toFloat hc hword).abs_sub_le hone)
    ((isRounded_tenTo hk).abs_sub_le (one_le_ten_pow k))).trans ?_
  have hpos : (0 : ℚ) ≤ c / 10 ^ k := by positivity
  have : ((c : ℚ) / 2 ^ 53 + c / 2 ^ 53) * (1 + 1 / 2 ^ 52) / 10 ^ k =
      2 / 2 ^ 53 * (1 + 1 / 2 ^ 52) * (c / 10 ^ k) := by ring
  rw [this]
  exact mul_le_mul_of_nonneg_right (by norm_num) hpos

/-- Half of the least double is less than any quotient by the greatest power of ten. -/
theorem half_least_le : (2 : ℚ) ^ (-1074 : Int) / 2 ≤ 1 / 10 ^ 308 / 4 := by
  have hnat : 10 ^ 308 * 4 ≤ 2 ^ 1074 * 2 := by decide +kernel
  have hcast : ((10 ^ 308 * 4 : Nat) : ℚ) ≤ (2 ^ 1074 * 2 : Nat) := Nat.cast_le.mpr hnat
  simp only [Nat.cast_mul, Nat.cast_pow, Nat.cast_ofNat] at hcast
  rw [zpow_neg, zpow_ofNat, ← one_div, div_div, div_div]
  exact one_div_le_one_div_of_le (by positivity) hcast

/-- Errors add up when a number near to another is rounded. -/
theorem abs_sub_le_of_max {z least : ℚ} (hw : 0 ≤ w) (hleast : 0 ≤ least)
    (hz : |z - v| ≤ max (v / 2 ^ 53) least) (hv : |v - w| ≤ (2 + 1 / 2 ^ 40) / 2 ^ 53 * w) :
    |z - w| ≤ (3 + 1 / 2 ^ 38) / 2 ^ 53 * w + least := by
  have hbounds := abs_le.mp hv
  have hpos : 0 ≤ v := by linarith [hbounds.1]
  have hround := abs_le.mp (hz.trans (max_le_add_of_nonneg (by positivity) hleast))
  rw [abs_le]
  constructor <;> linarith [hround.1, hround.2, hbounds.1, hbounds.2]

/-- The error of a quotient of a word by the greatest power of ten, once it is rounded. -/
theorem abs_firstQuotient_sub_le (hc : 0 < c) (hword : c ≤ wordMax) :
    |absValue (c.toUInt64.toFloat / tenTo 308) - c / 10 ^ 308| ≤
      (3 + 1 / 2 ^ 38) / 2 ^ 53 * ((c : ℚ) / 10 ^ 308) + 2 ^ (-1074 : Int) / 2 := by
  have hone : (1 : ℚ) ≤ c := by exact_mod_cast hc
  have hround := isRounded_toFloat hc hword
  have hfirst :=
    hround.div_tenTo (hround.absValue_pos hone) (absValue_toFloat_le hc hword) le_rfl
  have hleast : (0 : ℚ) < 2 ^ (-1074 : Int) / 2 := half_pos (zpow_pos two_pos _)
  exact abs_sub_le_of_max (by positivity) hleast.le hfirst.abs_sub_le_max
    (abs_quotient_sub_le hc hword le_rfl)

/-- A quotient of a word by the greatest power of ten is not rounded to zero, and is not large. -/
theorem absValue_firstQuotient_bounds (hc : 0 < c) (hword : c ≤ wordMax) :
    0 < absValue (c.toUInt64.toFloat / tenTo 308) ∧
      absValue (c.toUInt64.toFloat / tenTo 308) ≤ 10 ^ 63 := by
  have hone : (1 : ℚ) ≤ c := by exact_mod_cast hc
  have herror := abs_le.mp (abs_firstQuotient_sub_le hc hword)
  have hquotient : (1 : ℚ) / 10 ^ 308 ≤ c / 10 ^ 308 := by gcongr
  have hsmall := half_least_le
  have hmany : (c : ℚ) / 10 ^ 308 ≤ 10 ^ 20 := by
    rw [div_le_iff₀ (by positivity)]
    exact (cast_le_of_word hword).trans
      (le_mul_of_one_le_right (by positivity) (one_le_ten_pow 308))
  have hunit : (0 : ℚ) < 1 / 10 ^ 308 := by positivity
  generalize (2 : ℚ) ^ (-1074 : Int) / 2 = least at *
  generalize (c : ℚ) / 10 ^ 308 = w at *
  generalize (1 : ℚ) / 10 ^ 308 = unit at *
  constructor
  · linarith [herror.1]
  · linarith [herror.2]

/-- Scaling by two quotients. -/
theorem scalesTo_quotients (hc : 0 < c) (hword : c ≤ wordMax) (hpos : 0 < k) (hk : k ≤ 308) :
    ScalesTo c (-308 - k)
      (absValue (c.toUInt64.toFloat / tenTo 308) / absValue (tenTo k)) := by
  have hone : (1 : ℚ) ≤ c := by exact_mod_cast hc
  have hround := isRounded_toFloat hc hword
  have hfirst :=
    hround.div_tenTo (hround.absValue_pos hone) (absValue_toFloat_le hc hword) le_rfl
  obtain ⟨hsome, hmost⟩ := absValue_firstQuotient_bounds hc hword
  exact .accepted (scale?_quotients c hpos hk) (hfirst.div_tenTo hsome hmost hk)

/-- The error of two quotients. -/
theorem abs_quotients_sub_le (hc : 0 < c) (hword : c ≤ wordMax) (hpos : 0 < k) (hk : k ≤ 308) :
    |absValue (c.toUInt64.toFloat / tenTo 308) / absValue (tenTo k) - c / 10 ^ 308 / 10 ^ k| ≤
      (4 + 1 / 2 ^ 37) / 2 ^ 53 * ((c : ℚ) / 10 ^ 308 / 10 ^ k) + 2 ^ (-1074 : Int) / 16 := by
  have herror := abs_firstQuotient_sub_le hc hword
  have hten : (10 : ℚ) ≤ 10 ^ k := by
    simpa using pow_le_pow_right₀ (by norm_num : (1 : ℚ) ≤ 10) hpos
  have hdivisor := (isRounded_tenTo hk).abs_sub_le (one_le_ten_pow k)
  have hleast : (0 : ℚ) < 2 ^ (-1074 : Int) := zpow_pos two_pos _
  refine (abs_div_sub_div_le (by positivity) (by positivity) herror hdivisor).trans ?_
  have hw : (0 : ℚ) ≤ c / 10 ^ 308 := by positivity
  generalize (2 : ℚ) ^ (-1074 : Int) = least at *
  generalize (c : ℚ) / 10 ^ 308 = w at *
  have hpart : 0 ≤ w / 10 ^ k := by positivity
  calc ((3 + 1 / 2 ^ 38) / 2 ^ 53 * w + least / 2 + w / 2 ^ 53) * (1 + 1 / 2 ^ 52) / 10 ^ k
      = ((4 + 1 / 2 ^ 38) / 2 ^ 53 * (w / 10 ^ k) + least / 2 / 10 ^ k) * (1 + 1 / 2 ^ 52) := by
        ring
    _ ≤ ((4 + 1 / 2 ^ 38) / 2 ^ 53 * (w / 10 ^ k) + least / 2 / 10) * (1 + 1 / 2 ^ 52) := by
        gcongr
    _ ≤ (4 + 1 / 2 ^ 37) / 2 ^ 53 * (w / 10 ^ k) + least / 16 := by
        linarith

/-- What is read is the rounding of a number near to the one that is scaled. -/
theorem exists_scalesTo (hc : 0 < c) (hword : c ≤ wordMax) (hlow : -616 ≤ p) (hhigh : p ≤ 308) :
    ∃ v, ScalesTo c p v ∧
      |v - c * 10 ^ p| ≤ (4 + 1 / 2 ^ 37) / 2 ^ 53 * (c * 10 ^ p) + 2 ^ (-1074 : Int) / 16 := by
  have hleast : (0 : ℚ) < 2 ^ (-1074 : Int) / 16 := div_pos (zpow_pos two_pos _) (by norm_num)
  have loosen {w e : ℚ} (hw : 0 ≤ w) (h : e ≤ (2 + 1 / 2 ^ 40) / 2 ^ 53 * w) :
      e ≤ (4 + 1 / 2 ^ 37) / 2 ^ 53 * w + 2 ^ (-1074 : Int) / 16 := by
    have : (2 + 1 / 2 ^ 40) / 2 ^ 53 * w ≤ (4 + 1 / 2 ^ 37) / 2 ^ 53 * w := by gcongr <;> norm_num
    linarith
  rcases (by omega : 0 ≤ p ∨ -308 ≤ p ∧ p < 0 ∨ p < -308) with hp | hp | hp
  · obtain ⟨k, rfl⟩ := Int.eq_ofNat_of_zero_le hp
    rw [zpow_natCast]
    exact ⟨_, scalesTo_product hc hword (by omega),
      loosen (by positivity) (abs_product_sub_le hc hword (by omega))⟩
  · obtain ⟨k, hk⟩ := Int.eq_ofNat_of_zero_le (Int.neg_nonneg.mpr hp.2.le)
    obtain rfl : p = -k := by omega
    rw [zpow_neg, zpow_natCast, ← div_eq_mul_inv]
    exact ⟨_, scalesTo_quotient hc hword (by omega) (by omega),
      loosen (by positivity) (abs_quotient_sub_le hc hword (by omega))⟩
  · obtain ⟨k, hk⟩ := Int.eq_ofNat_of_zero_le (by omega : 0 ≤ -308 - p)
    obtain rfl : p = -308 - k := by omega
    rw [zpow_sub₀ (by norm_num), zpow_neg, zpow_natCast, zpow_ofNat, ← mul_div_assoc,
      ← div_eq_mul_inv]
    have hpos : 0 < k := by omega
    have hk : k ≤ 308 := by omega
    exact ⟨_, scalesTo_quotients hc hword hpos hk, abs_quotients_sub_le hc hword hpos hk⟩

/-! ## The decimal of a double -/

/-- A number in the interval of a double, moved by little more than four units, is not beyond the
largest double, but for the last five doubles. -/
theorem lt_overflowLimit_of_near {v' : ℚ} (h : IsDouble m q) (htop : q = 971 → m < 2 ^ 53 - 5)
    (hcovers : (Rounding.of m q).Covers v) (hclose : v' ≤ v + (4 + 1 / 8) * 2 ^ q) :
    v' < overflowLimit := by
  have hunit : (0 : ℚ) < 2 ^ (970 : Int) := zpow_pos two_pos _
  rcases Int.lt_or_eq_of_le h.le_greatest with hlt | rfl
  · have hunits : (2 : ℚ) ^ q ≤ 2 ^ (970 : Int) := zpow_le_zpow_right₀ one_le_two (by omega)
    have hmost := hcovers.le_units h
    rw [overflowLimit]
    generalize (2 : ℚ) ^ (970 : Int) = unit at *
    nlinarith only [hmost, hunits, hunit, hclose]
  · obtain ⟨t, rfl⟩ := exists_units v 971
    have hhigh := hcovers.isNearest.le_high
    have hm : (m : ℚ) + 6 ≤ 2 ^ 53 := by
      have := htop rfl
      exact_mod_cast (by omega : m + 6 ≤ 2 ^ 53)
    have hlast : (2 : ℚ) ^ (971 : Int) = 2 * 2 ^ (970 : Int) := zpow_one_add₀ two_ne_zero 970
    rw [overflowLimit]
    rw [hlast] at hclose
    generalize (2 : ℚ) ^ (970 : Int) = unit at hunit hclose
    nlinarith only [hhigh, hm, hunit, hclose]

/-- The last doubles, where what is read could lie beyond the largest one: every other of them is
read as the next one. -/
theorem scale?_last (negative : Bool) (j : Nat) (hj : j < 5) :
    (scale? ((shortest (2 ^ 53 - 1 - j) 971).numeral negative).decimal.coefficient
        ((shortest (2 ^ 53 - 1 - j) 971).numeral negative).decimal.exponent).map Shape.ofFloat =
      some (.finite false (2 ^ 53 - 1 - j / 2 * 2) 971) := by
  revert negative j
  decide +kernel

/-- What is read for a decimal in the interval of a double is near the double. -/
theorem scale?_near {d : Decimal} (h : IsDouble m q) (htop : q = 971 → m < 2 ^ 53 - 5)
    (hc : 0 < d.coefficient) (hword : d.coefficient ≤ wordMax) (hlow : -616 ≤ d.exponent)
    (hhigh : d.exponent ≤ 308) (hcovers : (Rounding.of m q).Covers d.value) :
    ∃ y v, scale? d.coefficient d.exponent = some y ∧ IsRounded y v ∧
      |v - d.value| ≤ (4 + 1 / 8) * 2 ^ q := by
  obtain ⟨v, hscales, herror⟩ := exists_scalesTo hc hword hlow hhigh
  have hmost := hcovers.le_units h
  have hunit : (0 : ℚ) < 2 ^ q := zpow_pos two_pos q
  have hlast : (2 : ℚ) ^ (-1074 : Int) ≤ 2 ^ q := zpow_le_zpow_right₀ one_le_two h.least_le
  have hclose : |v - d.value| ≤ (4 + 1 / 8) * 2 ^ q := by
    rw [Decimal.value] at hmost ⊢
    generalize (2 : ℚ) ^ (-1074 : Int) = least at *
    linarith
  obtain ⟨y, hy, hround⟩ := hscales.exists_isRounded
    (lt_overflowLimit_of_near h htop hcovers (by linarith [(abs_le.mp hclose).2]))
  exact ⟨y, v, hy, hround, hclose⟩

/-! ## What is read exactly -/

/-- Digits that are a double are kept when they are rounded. -/
theorem absValue_toFloat {a : Nat} (hc : 0 < c) (hword : c ≤ wordMax) (hn : n ≤ 2 ^ 53)
    (hdigits : c = n * 2 ^ a) : absValue c.toUInt64.toFloat = c := by
  have hround := isRounded_toFloat hc hword
  have hunits : (c : ℚ) = n * 2 ^ (a : Int) := by
    rw [hdigits, zpow_natCast]
    push_cast
    rfl
  rw [hunits] at hround
  exact (hround.absValue_exact hn (by omega)).trans hunits.symm

/-- Digits and a power of ten that are doubles are read without an error before the last step. -/
theorem scale?_exact {d : Decimal} {a : Nat} (hc : 0 < d.coefficient)
    (hword : d.coefficient ≤ wordMax) (hn : n ≤ 2 ^ 53) (hdigits : d.coefficient = n * 2 ^ a)
    (hpower : d.exponent.natAbs ≤ 22) :
    ∃ y, scale? d.coefficient d.exponent = some y ∧ IsRounded y d.value := by
  obtain ⟨c, p⟩ := d
  dsimp only [Decimal.value] at *
  have hvalue := absValue_toFloat hc hword hn hdigits
  have hten {k : Nat} (hk : k ≤ 22) : absValue (tenTo k) = 10 ^ k :=
    (isRounded_tenTo (hk.trans (by decide))).absValue_ten_pow hk
  have hsmall : (c : ℚ) * 10 ^ p < overflowLimit := by
    have hpow : (10 : ℚ) ^ p ≤ 10 ^ (22 : Int) := zpow_le_zpow_right₀ (by norm_num) (by omega)
    refine lt_overflowLimit_of_le ?_
    calc (c : ℚ) * 10 ^ p ≤ 10 ^ 20 * 10 ^ (22 : Int) :=
          mul_le_mul (cast_le_of_word hword) hpow (zpow_pos (by norm_num) _).le (by norm_num)
      _ ≤ 10 ^ 64 := by norm_num
  have hscales : ScalesTo c p (c * 10 ^ p) := by
    rcases le_or_gt 0 p with hp | hp
    · obtain ⟨k, rfl⟩ := Int.eq_ofNat_of_zero_le hp
      have hproduct := scalesTo_product (k := k) hc hword (by omega)
      rwa [hvalue, hten (by omega), ← zpow_natCast] at hproduct
    · obtain ⟨k, hk⟩ := Int.eq_ofNat_of_zero_le (Int.neg_nonneg.mpr hp.le)
      obtain rfl : p = -k := by omega
      have hquotient := scalesTo_quotient (k := k) hc hword (by omega) (by omega)
      rwa [hvalue, hten (by omega), div_eq_mul_inv, ← zpow_natCast, ← zpow_neg] at hquotient
  exact hscales.exists_isRounded hsmall

end MarketFeed.Number
