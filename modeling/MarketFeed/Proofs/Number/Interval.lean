import MarketFeed.Proofs.Number.Shortest
import Mathlib.Data.Nat.Log
import Mathlib.Tactic.Positivity

/-!
# The interval of a double

The numbers that round to a double are those that have its significand as the nearest one, in
units of its last place, with one exception: a double that is a power of two has smaller units
below it. Main statements: the intervals of two doubles are disjoint, a number with a significand
of 53 digits is a double itself, and a number lies at most half a unit in its last place from the
double it rounds to.
-/

namespace MarketFeed.Number

/-! ## The nearest significand -/

/-- A whole number nearest to `t`, and the even one if two are equally near. -/
structure IsNearest (t : ℚ) (n : Nat) : Prop where
  low_le : (n : ℚ) - 1 / 2 ≤ t
  le_high : t ≤ n + 1 / 2
  even : t = n - 1 / 2 ∨ t = n + 1 / 2 → n % 2 = 0

/-- Two whole numbers nearest to the same number are the same. -/
theorem IsNearest.unique {t : ℚ} {m n : Nat} (hm : IsNearest t m) (hn : IsNearest t n) : m = n := by
  have hup : m ≤ n + 1 := by
    have : (m : ℚ) ≤ n + 1 := by linarith [hm.low_le, hn.le_high]
    exact_mod_cast this
  have hdown : n ≤ m + 1 := by
    have : (n : ℚ) ≤ m + 1 := by linarith [hn.low_le, hm.le_high]
    exact_mod_cast this
  -- Of two neighbours at the same distance one is odd.
  rcases (by omega : m = n ∨ m = n + 1 ∨ n = m + 1) with h | rfl | rfl
  · exact h
  · have hlow := hm.low_le
    have hhigh := hn.le_high
    push_cast at hlow
    have htie : t = n + 1 / 2 := by linarith
    have := hn.even (.inr htie)
    have := hm.even (.inl (by push_cast; linarith))
    omega
  · have hlow := hn.low_le
    have hhigh := hm.le_high
    push_cast at hlow
    have htie : t = m + 1 / 2 := by linarith
    have := hm.even (.inr htie)
    have := hn.even (.inl (by push_cast; linarith))
    omega

/-- A whole number is nearest to itself. -/
theorem isNearest_natCast (n : Nat) : IsNearest n n :=
  ⟨by linarith, by linarith, by rintro (h | h) <;> linarith⟩

/-! ## Units of the last place -/

/-- The interval of a double, in units of its last place. -/
theorem Rounding.covers_mul_zpow {m : Nat} {q : Int} {t : ℚ} :
    (Rounding.of m q).Covers (t * 2 ^ q) ↔
      if m % 2 = 0 then ((Rounding.of m q).low : ℚ) ≤ 4 * t ∧ 4 * t ≤ 4 * m + 2
      else ((Rounding.of m q).low : ℚ) < 4 * t ∧ 4 * t < 4 * m + 2 := by
  have hunit : (2 : ℚ) ^ q = 4 * 2 ^ (q - 2) := by
    rw [zpow_sub₀ two_ne_zero]
    norm_num
    ring
  have hpos : (0 : ℚ) < 2 ^ (q - 2) := zpow_pos two_pos _
  have hquarters : t * 2 ^ q = 4 * t * 2 ^ (q - 2) := by rw [hunit]; ring
  have hhigh : ((Rounding.of m q).high : ℚ) = 4 * m + 2 := by
    change ((4 * m + 2 : Nat) : ℚ) = _
    push_cast
    rfl
  rw [hquarters, Covers, hhigh]
  change (if (m % 2 == 0) = true then (_ : ℚ) * 2 ^ (q - 2) ≤ _ ∧ _ ≤ _ * (2 : ℚ) ^ (q - 2)
    else (_ : ℚ) * 2 ^ (q - 2) < _ ∧ _ < _ * (2 : ℚ) ^ (q - 2)) ↔ _
  simp only [mul_le_mul_iff_left₀ hpos, mul_lt_mul_iff_left₀ hpos, beq_iff_eq]

/-- The lower end of the interval of a double, as a rational. -/
theorem Rounding.low_of (m : Nat) (q : Int) :
    ((Rounding.of m q).low : ℚ) =
      if m = 2 ^ 52 ∧ q ≠ -1074 then 4 * (m : ℚ) - 1 else if m = 0 then 0 else 4 * (m : ℚ) - 2 := by
  dsimp only [Rounding.of, Nat.pow_eq]
  split_ifs with htwo hzero
  · rw [Nat.cast_sub (by omega)]
    push_cast
    rfl
  · rw [hzero]
    rfl
  · rw [Nat.cast_sub (by omega)]
    push_cast
    rfl

/-- A number lies in the interval of the double with the nearest significand. A double that is a
power of two has an interval that is narrower below, so there the number is not below the
double. -/
theorem Rounding.covers_of_isNearest {m : Nat} {q : Int} {t : ℚ} (h : IsNearest t m) (ht : 0 ≤ t)
    (hpower : m = 2 ^ 52 → q ≠ -1074 → (m : ℚ) ≤ t) : (Rounding.of m q).Covers (t * 2 ^ q) := by
  have hlow := h.low_le
  have hhigh := h.le_high
  have heven := h.even
  rw [covers_mul_zpow, low_of]
  split_ifs with hparity htwo hzero htwo hzero
  · have := hpower htwo.1 htwo.2
    constructor <;> linarith
  · constructor <;> linarith
  · constructor <;> linarith
  · exact absurd (by rw [htwo.1]; rfl) hparity
  · exact absurd (by rw [hzero]) hparity
  · have hlow' : t ≠ m - 1 / 2 := fun he => hparity (heven (.inl he))
    have hhigh' : t ≠ m + 1 / 2 := fun he => hparity (heven (.inr he))
    have := lt_of_le_of_ne hlow hlow'.symm
    have := lt_of_le_of_ne hhigh hhigh'
    constructor <;> linarith

section Double

variable {m n : Nat} {q r : Int} {t v : ℚ}

/-- A number is a count of units of any exponent. -/
theorem exists_units (v : ℚ) (q : Int) : ∃ t, v = t * 2 ^ q :=
  ⟨v / 2 ^ q, (div_mul_cancel₀ v (zpow_ne_zero q two_ne_zero)).symm⟩

/-- In units of its last place the significand of a double is the nearest to every number in its
interval. -/
theorem Rounding.Covers.isNearest (h : (Rounding.of m q).Covers (t * 2 ^ q)) : IsNearest t m := by
  rw [covers_mul_zpow, low_of] at h
  split_ifs at h with hparity htwo hzero htwo hzero
  · exact ⟨by linarith, by linarith, fun _ => hparity⟩
  · rw [hzero] at h ⊢
    exact ⟨by push_cast at h ⊢; linarith, by push_cast at h ⊢; linarith, fun _ => rfl⟩
  · exact ⟨by linarith, by linarith, fun _ => hparity⟩
  · exact absurd (by rw [htwo.1]; rfl) hparity
  · exact absurd (by rw [hzero]) hparity
  · exact ⟨by linarith, by linarith, by rintro (h' | h') <;> linarith⟩

/-- A number in the interval of a double with a hidden bit has 53 digits in units of the last
place, up to a quarter of a unit. -/
theorem Rounding.Covers.hidden_le (h : IsDouble m q) (hq : q ≠ -1074)
    (hcovers : (Rounding.of m q).Covers (t * 2 ^ q)) : 2 ^ 52 - 1 / 4 ≤ t := by
  have hhidden := h.hidden hq
  rcases Nat.eq_or_lt_of_le hhidden with htwo | hlt
  · subst htwo
    rw [covers_mul_zpow, low_of, if_pos (by rfl), if_pos ⟨rfl, hq⟩] at hcovers
    have := hcovers.1
    push_cast at this
    linarith
  · have hnext : (2 ^ 52 + 1 : ℚ) ≤ m := by exact_mod_cast hlt
    linarith [hcovers.isNearest.low_le]

/-! ## Which double -/

/-- A number in the intervals of two doubles cannot be in one of a greater exponent. -/
theorem exponent_le_of_covers (hm : IsDouble m q) (hn : IsDouble n r)
    (hq : (Rounding.of m q).Covers v) (hr : (Rounding.of n r).Covers v) : r ≤ q := by
  by_contra hlt
  obtain ⟨j, hj⟩ := Int.eq_ofNat_of_zero_le (by omega : 0 ≤ r - q - 1)
  have hleast : r ≠ -1074 := by
    have := hm.least_le
    omega
  obtain ⟨t, rfl⟩ := exists_units v r
  have hunit : t * 2 ^ r = 2 * 2 ^ j * t * 2 ^ q := by
    rw [show r = q + 1 + j by omega, zpow_add₀ two_ne_zero, zpow_add_one₀ two_ne_zero, zpow_natCast]
    ring
  rw [hunit] at hq
  have hlow := Rounding.Covers.hidden_le hn hleast hr
  have hhigh := hq.isNearest.le_high
  have hone : (1 : ℚ) ≤ 2 ^ j := one_le_pow₀ one_le_two
  have hdouble : 2 * t ≤ 2 * 2 ^ j * t := by nlinarith
  have hmost : (m : ℚ) ≤ 2 ^ 53 - 1 := by
    have := hm.significand_lt
    rw [le_sub_iff_add_le]
    exact_mod_cast this
  -- Only the middle between the last double of one exponent and the first of the next is left, and
  -- the last significand is odd.
  have htie : 2 * 2 ^ j * t = m + 1 / 2 := by linarith
  have hodd : m = 2 ^ 53 - 1 := by
    have hleast : (2 : ℚ) ^ 53 - 1 ≤ m := by linarith
    have : (m : ℚ) = ((2 ^ 53 - 1 : Nat) : ℚ) := by
      rw [le_antisymm hmost hleast]
      norm_num
    exact_mod_cast this
  have := hq.isNearest.even (.inr htie)
  rw [hodd] at this
  exact absurd this (by decide)

/-- The intervals of two doubles are disjoint. -/
theorem eq_of_covers (hm : IsDouble m q) (hn : IsDouble n r) (hq : (Rounding.of m q).Covers v)
    (hr : (Rounding.of n r).Covers v) : m = n ∧ q = r := by
  obtain rfl : q = r :=
    Int.le_antisymm (exponent_le_of_covers hn hm hr hq) (exponent_le_of_covers hm hn hq hr)
  obtain ⟨t, rfl⟩ := exists_units v q
  exact ⟨hq.isNearest.unique hr.isNearest, rfl⟩

/-- A number with a significand of at most 53 digits, or the next power of two, is the double it
rounds to. -/
theorem eq_of_covers_exact {a : Int} (h : IsDouble m q) (hn : n ≤ 2 ^ 53) (ha : -1074 ≤ a)
    (hcovers : (Rounding.of m q).Covers (n * 2 ^ a)) : (m : ℚ) * 2 ^ q = n * 2 ^ a := by
  rcases Int.le_total q a with hle | hle
  · obtain ⟨j, hj⟩ := Int.eq_ofNat_of_zero_le (Int.sub_nonneg.mpr hle)
    have hunit : (n : ℚ) * 2 ^ a = (n * 2 ^ j : Nat) * 2 ^ q := by
      rw [show a = q + j by omega, zpow_add₀ two_ne_zero, zpow_natCast]
      push_cast
      ring
    rw [hunit] at hcovers ⊢
    rw [hcovers.isNearest.unique (isNearest_natCast _)]
  · rcases Int.lt_or_eq_of_le hle with hlt | rfl
    · -- The last place of the double is greater than that of the number: it is a power of two.
      obtain ⟨j, hj⟩ := Int.eq_ofNat_of_zero_le (by omega : 0 ≤ q - a - 1)
      obtain ⟨t, ht⟩ := exists_units ((n : ℚ) * 2 ^ a) q
      have hpos : (2 : ℚ) ^ a ≠ 0 := zpow_ne_zero a two_ne_zero
      have hunit : (n : ℚ) = 2 * 2 ^ j * t := by
        rw [show q = a + 1 + j by omega, zpow_add₀ two_ne_zero, zpow_add_one₀ two_ne_zero,
          zpow_natCast] at ht
        have : (n : ℚ) * 2 ^ a = 2 * 2 ^ j * t * 2 ^ a := ht.trans (by ring)
        exact mul_right_cancel₀ hpos this
      rw [ht] at hcovers ⊢
      have hlow := Rounding.Covers.hidden_le h (by omega) hcovers
      have hmost : (n : ℚ) ≤ 2 ^ 53 := by exact_mod_cast hn
      have hpower : t = ((2 ^ 52 : Nat) : ℚ) := by
        cases j with
        | zero =>
          have hlast : n = 2 ^ 53 := by
            have : (2 ^ 53 : ℚ) < n + 1 := by linarith
            exact Nat.le_antisymm hn (Nat.le_of_lt_succ (by exact_mod_cast this))
          rw [hlast] at hunit
          push_cast at hunit ⊢
          linarith
        | succ j =>
          have hone : (1 : ℚ) ≤ 2 ^ j := one_le_pow₀ one_le_two
          rw [pow_succ] at hunit
          nlinarith
      rw [hpower] at hcovers ⊢
      rw [hcovers.isNearest.unique (isNearest_natCast _)]
    · have hcovers' := hcovers.isNearest
      rw [hcovers'.unique (isNearest_natCast _)]

/-! ## How near -/

/-- A number of one or more does not round to a double with the least exponent. -/
theorem ne_least_of_one_le (h : IsDouble m q) (hcovers : (Rounding.of m q).Covers v) (hv : 1 ≤ v) :
    q ≠ -1074 := by
  rintro rfl
  obtain ⟨t, rfl⟩ := exists_units v (-1074)
  have hhigh := hcovers.isNearest.le_high
  have hm : (m : ℚ) ≤ 2 ^ 53 := by exact_mod_cast h.significand_lt.le
  have hunit : (2 : ℚ) ^ (-1074 : Int) ≤ 2 ^ (-54 : Int) :=
    zpow_le_zpow_right₀ one_le_two (by decide)
  have hpos : (0 : ℚ) < 2 ^ (-1074 : Int) := zpow_pos two_pos _
  have : t * 2 ^ (-1074 : Int) ≤ (2 ^ 53 + 1 / 2) * 2 ^ (-54 : Int) :=
    mul_le_mul (by linarith) hunit hpos.le (by norm_num)
  exact absurd (hv.trans this) (by norm_num)

/-- The error of rounding is at most half a unit in the last place of the double. -/
theorem abs_sub_le_half (hcovers : (Rounding.of m q).Covers v) : |m * 2 ^ q - v| ≤ 2 ^ q / 2 := by
  obtain ⟨t, rfl⟩ := exists_units v q
  have hpos : (0 : ℚ) < 2 ^ q := zpow_pos two_pos _
  have hlow := hcovers.isNearest.low_le
  have hhigh := hcovers.isNearest.le_high
  rw [abs_le]
  constructor <;> nlinarith

/-- The error of rounding is at most the number times `2 ^ -53`, unless the number is so small that
its last place is the last of all. -/
theorem abs_sub_le_max (h : IsDouble m q) (hcovers : (Rounding.of m q).Covers v) :
    |m * 2 ^ q - v| ≤ max (v / 2 ^ 53) (2 ^ (-1074 : Int) / 2) := by
  rcases eq_or_ne q (-1074) with rfl | hq
  · exact le_max_of_le_right (abs_sub_le_half hcovers)
  · refine le_max_of_le_left ?_
    obtain ⟨t, rfl⟩ := exists_units v q
    have hpos : (0 : ℚ) < 2 ^ q := zpow_pos two_pos _
    have hlow := hcovers.isNearest.low_le
    have hhigh := hcovers.isNearest.le_high
    have hleast := hcovers.hidden_le h hq
    have hhidden : (2 ^ 52 : ℚ) ≤ m := by exact_mod_cast h.hidden hq
    -- Below a power of two the units are half as large, and the error is a quarter of a unit.
    have herror : |m - t| ≤ t / 2 ^ 53 := by
      rw [abs_le]
      rcases Nat.eq_or_lt_of_le (h.hidden hq) with htwo | hlt
      · rw [← htwo] at hhigh ⊢
        push_cast at hhigh ⊢
        constructor <;> linarith
      · have hnext : (2 ^ 52 + 1 : ℚ) ≤ m := by exact_mod_cast hlt
        constructor <;> linarith
    calc |m * 2 ^ q - t * 2 ^ q| = |m - t| * 2 ^ q := by
          rw [← sub_mul, abs_mul, abs_of_pos hpos]
      _ ≤ t / 2 ^ 53 * 2 ^ q := by gcongr
      _ = t * 2 ^ q / 2 ^ 53 := by ring

/-- The error of rounding a number of one or more is at most the number times `2 ^ -53`. -/
theorem abs_sub_le_of_one_le (h : IsDouble m q) (hcovers : (Rounding.of m q).Covers v)
    (hv : 1 ≤ v) : |m * 2 ^ q - v| ≤ v / 2 ^ 53 := by
  have hsmall : (2 : ℚ) ^ (-1074 : Int) / 2 ≤ v / 2 ^ 53 :=
    calc (2 : ℚ) ^ (-1074 : Int) / 2 ≤ 2 ^ (-1074 : Int) := half_le_self (zpow_pos two_pos _).le
      _ ≤ 2 ^ (-53 : Int) := zpow_le_zpow_right₀ one_le_two (by decide)
      _ = 1 / 2 ^ 53 := by norm_num
      _ ≤ v / 2 ^ 53 := by gcongr
  exact (abs_sub_le_max h hcovers).trans (max_le le_rfl hsmall)

end Double

end MarketFeed.Number
