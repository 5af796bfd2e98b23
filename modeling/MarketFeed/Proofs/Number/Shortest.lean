import MarketFeed.Number.Shortest
import Mathlib.Algebra.Order.Field.Power
import Mathlib.Tactic.FieldSimp
import Mathlib.Tactic.Linarith
import Mathlib.Tactic.LinearCombination
import Mathlib.Tactic.NormNum
import Mathlib.Tactic.Ring

/-!
# The shortest decimal lies in the interval of its double

The comparisons of the search are between natural numbers, both sides brought to a common
denominator. Here they are read as comparisons of rationals. A grid that has no point in the
interval is coarser than the interval is wide, so the search ends before the grids give out, and
the decimal it ends with has at most eighteen digits.
-/

namespace MarketFeed.Number

/-- The significand and the exponent of a finite double. All but those with the least exponent
have the hidden bit. -/
structure IsDouble (m : Nat) (q : Int) : Prop where
  significand_lt : m < 2 ^ 53
  least_le : -1074 ≤ q
  le_greatest : q ≤ 971
  hidden : q ≠ -1074 → 2 ^ 52 ≤ m

/-- A finite bit pattern has the significand and the exponent of a double. -/
theorem isDouble_of_ofBits {bits : Nat} {negative : Bool} {m : Nat} {q : Int}
    (h : Shape.ofBits bits = .finite negative m q) : IsDouble m q := by
  have hfield : bits / Nat.pow 2 52 % Nat.pow 2 11 < 2048 := Nat.mod_lt _ (by decide)
  have hfraction : bits % Nat.pow 2 52 < 2 ^ 52 := Nat.mod_lt _ (by decide)
  have hhidden : Nat.pow 2 52 = 2 ^ 52 := rfl
  unfold Shape.ofBits at h
  dsimp only at h
  split_ifs at h with hlast hzero hfirst
  · obtain ⟨-, rfl, rfl⟩ := Shape.finite.inj h
    exact ⟨by omega, by omega, by omega, fun hq => absurd rfl hq⟩
  · obtain ⟨-, rfl, rfl⟩ := Shape.finite.inj h
    exact ⟨by omega, by omega, by omega, fun _ => by omega⟩

/-! ## Counts and rationals -/

/-- A power with a part of its exponent cut off at zero, completed by the other part. -/
theorem pow_toNat_neg_mul_zpow {b : ℚ} (hb : b ≠ 0) (n : Int) :
    b ^ (-n).toNat * b ^ n = b ^ n.toNat := by
  rcases Int.le_total 0 n with hn | hn
  · obtain ⟨a, rfl⟩ := Int.eq_ofNat_of_zero_le hn
    simp
  · obtain ⟨a, ha⟩ := Int.eq_ofNat_of_zero_le (Int.neg_nonneg.mpr hn)
    obtain rfl : n = -a := by omega
    simp [hb]

namespace Rounding

variable (r : Rounding) (k : Int)

/-- The reals that round to the double, as rationals. -/
def Covers (x : ℚ) : Prop :=
  if r.endsIncluded then r.low * 2 ^ r.unit ≤ x ∧ x ≤ r.high * 2 ^ r.unit
  else r.low * 2 ^ r.unit < x ∧ x < r.high * 2 ^ r.unit

/-- A step of the grid in quarters of the double, in the common denominator. -/
theorem step_mul_zpow : (r.step k : ℚ) * 2 ^ r.unit = r.scale k * 10 ^ k := by
  have htwo := pow_toNat_neg_mul_zpow (b := 2) two_ne_zero r.unit
  have hten := pow_toNat_neg_mul_zpow (b := 10) (by norm_num) k
  simp only [step, scale, Nat.pow_eq, Nat.cast_mul, Nat.cast_pow, Nat.cast_ofNat]
  rw [← htwo, ← hten]
  ring

/-- The common denominator of the quarters and the grid. -/
def denominator : ℚ := r.scale k / 2 ^ r.unit

/-- The common denominator is positive. -/
theorem denominator_pos : 0 < r.denominator k := by
  have hscale : 0 < r.scale k := Nat.mul_pos (Nat.pow_pos (by decide)) (Nat.pow_pos (by decide))
  exact div_pos (Nat.cast_pos.mpr hscale) (zpow_pos two_pos _)

/-- A count of quarters, in the common denominator. -/
theorem cast_mul_scale (n : Nat) :
    ((n * r.scale k : Nat) : ℚ) = r.denominator k * (n * 2 ^ r.unit) := by
  have htwo : (2 : ℚ) ^ r.unit ≠ 0 := zpow_ne_zero _ two_ne_zero
  rw [denominator]
  push_cast
  field_simp

/-- A point of the grid, in the common denominator. -/
theorem cast_mul_step (c : Nat) :
    ((c * r.step k : Nat) : ℚ) = r.denominator k * (c * 10 ^ k) := by
  have htwo : (2 : ℚ) ^ r.unit ≠ 0 := zpow_ne_zero _ two_ne_zero
  have hstep := r.step_mul_zpow k
  rw [denominator]
  push_cast
  field_simp
  linear_combination (c : ℚ) * hstep

variable {r k}

/-- Counts in the common denominator are compared as the rationals are. -/
theorem mul_scale_le_iff {n c : Nat} :
    n * r.scale k ≤ c * r.step k ↔ (n : ℚ) * 2 ^ r.unit ≤ c * 10 ^ k := by
  rw [← Nat.cast_le (α := ℚ), cast_mul_scale, cast_mul_step,
    mul_le_mul_iff_right₀ (r.denominator_pos k)]

/-- Counts in the common denominator are compared as the rationals are. -/
theorem mul_step_le_iff {n c : Nat} :
    c * r.step k ≤ n * r.scale k ↔ (c : ℚ) * 10 ^ k ≤ n * 2 ^ r.unit := by
  rw [← Nat.cast_le (α := ℚ), cast_mul_scale, cast_mul_step,
    mul_le_mul_iff_right₀ (r.denominator_pos k)]

/-- A point of a grid is taken to round to the double when it lies in the interval. -/
theorem contains_iff {c : Nat} : r.contains k c = true ↔ r.Covers (c * 10 ^ k) := by
  unfold contains Covers
  split
  · simp only [Bool.and_eq_true, decide_eq_true_eq, mul_scale_le_iff, mul_step_le_iff]
  · simp only [Bool.and_eq_true, decide_eq_true_eq, ← not_le, mul_scale_le_iff, mul_step_le_iff]

/-! ## Grids -/

/-- A point taken from a grid lies in the interval. -/
theorem covers_of_onGrid? {c : Nat} (h : r.onGrid? k = some c) : r.Covers (c * 10 ^ k) := by
  rw [← contains_iff]
  unfold onGrid? at h
  dsimp only at h
  split at h
  · obtain rfl := Option.some.inj h
    assumption
  · obtain rfl := Option.some.inj h
    assumption
  · cases h
  · split_ifs at h <;> obtain rfl := Option.some.inj h <;> assumption

/-- The inside of the interval belongs to it. -/
theorem covers_of_lt {x : ℚ} (hlow : r.low * 2 ^ r.unit < x) (hhigh : x < r.high * 2 ^ r.unit) :
    r.Covers x := by
  unfold Covers
  split
  · exact ⟨hlow.le, hhigh.le⟩
  · exact ⟨hlow, hhigh⟩

/-- The interval lies between its ends. -/
theorem Covers.between {x : ℚ} (h : r.Covers x) :
    r.low * 2 ^ r.unit ≤ x ∧ x ≤ r.high * 2 ^ r.unit := by
  unfold Covers at h
  split at h
  · exact h
  · exact ⟨h.1.le, h.2.le⟩

/-- A grid without a point in the interval is coarser than the interval is wide. -/
theorem width_le_of_onGrid?_eq_none (hlow : r.low < r.middle) (hhigh : r.middle < r.high)
    (h : r.onGrid? k = none) : ((r.high : ℚ) - r.low) * 2 ^ r.unit ≤ 10 ^ k := by
  have hlow' : (r.low : ℚ) * 2 ^ r.unit < r.middle * 2 ^ r.unit := by gcongr
  have hhigh' : (r.middle : ℚ) * 2 ^ r.unit < r.high * 2 ^ r.unit := by gcongr
  have hstep : 0 < r.step k := Nat.mul_pos (Nat.pow_pos (by decide)) (Nat.pow_pos (by decide))
  -- The double lies between its two neighbours on the grid, and neither is in the interval.
  have hmisses : r.contains k (r.middle * r.scale k / r.step k) = false ∧
      r.contains k (r.middle * r.scale k / r.step k + 1) = false := by
    unfold onGrid? at h
    dsimp only at h
    split at h
    · cases h
    · cases h
    · exact ⟨‹_›, ‹_›⟩
    · split_ifs at h
  have hbelow := mul_step_le_iff.mp (Nat.div_mul_le_self (r.middle * r.scale k) (r.step k))
  have hnext : r.middle * r.scale k ≤ (r.middle * r.scale k / r.step k + 1) * r.step k := by
    rw [Nat.mul_comm _ (r.step k)]
    exact (Nat.lt_mul_div_succ _ hstep).le
  have habove := mul_scale_le_iff.mp hnext
  generalize r.middle * r.scale k / r.step k = below at hbelow habove hmisses
  rw [← Bool.not_eq_true, ← Bool.not_eq_true, contains_iff, contains_iff] at hmisses
  have hend : (below : ℚ) * 10 ^ k ≤ r.low * 2 ^ r.unit := not_lt.mp fun hlt =>
    hmisses.1 (covers_of_lt hlt (hbelow.trans_lt hhigh'))
  have hend' : (r.high : ℚ) * 2 ^ r.unit ≤ (below + 1 : Nat) * 10 ^ k := not_lt.mp fun hlt =>
    hmisses.2 (covers_of_lt (hlow'.trans_le habove) hlt)
  push_cast at hend'
  linarith

/-! ## The search -/

/-- The search ends with a point of the first grid that has one. -/
theorem search_spec {fuel n : Nat} (hn : n < fuel) (hmet : r.onGrid? (k - n) ≠ none) :
    r.onGrid? (r.search fuel k).exponent = some (r.search fuel k).coefficient ∧
      k - n ≤ (r.search fuel k).exponent ∧ (r.search fuel k).exponent ≤ k ∧
      ((r.search fuel k).exponent < k → r.onGrid? ((r.search fuel k).exponent + 1) = none) := by
  induction fuel generalizing n k with
  | zero => omega
  | succ fuel ih =>
    rw [search]
    cases hgrid : r.onGrid? k with
    | some c =>
      exact ⟨hgrid, by dsimp only; omega, Int.le_refl k, fun h => absurd h (Int.lt_irrefl k)⟩
    | none =>
      obtain ⟨n, rfl⟩ : ∃ j, n = j + 1 := by
        cases n with
        | zero => simp [hgrid] at hmet
        | succ j => exact ⟨j, rfl⟩
      have hshift : k - (n + 1 : Nat) = k - 1 - n := by omega
      rw [hshift] at hmet
      obtain ⟨hsome, hle, hge, hnone⟩ := ih (by omega) hmet
      refine ⟨hsome, by dsimp only; omega, by dsimp only; omega, fun _ => ?_⟩
      dsimp only
      rcases Int.lt_or_eq_of_le hge with hlt | heq
      · exact hnone hlt
      · rw [heq, Int.sub_add_cancel]
        exact hgrid

end Rounding

/-! ## The shortest decimal -/

/-- The number that a decimal is. -/
def Decimal.value (d : Decimal) : ℚ := d.coefficient * 10 ^ d.exponent

section Shortest

variable {m : Nat} {q : Int}

/-- The double lies inside its interval, which is at least three quarters wide. -/
theorem Rounding.of_bounds (hm : 0 < m) :
    (Rounding.of m q).low < (Rounding.of m q).middle ∧
      (Rounding.of m q).middle < (Rounding.of m q).high ∧ 0 < (Rounding.of m q).low ∧
        (Rounding.of m q).low + 3 ≤ (Rounding.of m q).high := by
  unfold Rounding.of
  dsimp only
  split <;> omega

/-- Every double is met on the last grid. -/
theorem onGrid?_last (hm : 0 < m) (hq : -1074 ≤ q) :
    (Rounding.of m q).onGrid? (-340) ≠ none := by
  intro hnone
  obtain ⟨hlow, hhigh, -, hwide⟩ := Rounding.of_bounds (q := q) hm
  have hwidth := Rounding.width_le_of_onGrid?_eq_none hlow hhigh hnone
  have hthree : (3 : ℚ) ≤ (Rounding.of m q).high - (Rounding.of m q).low := by
    rw [le_sub_iff_add_le']
    exact_mod_cast hwide
  have hunit : (2 : ℚ) ^ (-1076 : Int) ≤ 2 ^ (Rounding.of m q).unit :=
    zpow_le_zpow_right₀ one_le_two (by dsimp only [Rounding.of]; omega)
  have hless : (10 : ℚ) ^ (-340 : Int) < 2 ^ (-1076 : Int) := by
    have hnat : 2 ^ 1076 < 10 ^ 340 := by decide +kernel
    have hcast : (2 : ℚ) ^ 1076 < 10 ^ 340 := by exact_mod_cast hnat
    simpa [zpow_neg] using inv_strictAnti₀ (by positivity) hcast
  have hpos : (0 : ℚ) < 2 ^ (-1076 : Int) := zpow_pos two_pos _
  nlinarith

/-- The search for the shortest decimal ends with a point of the first grid that has one. -/
theorem shortest_search (h : IsDouble m q) (hm : 0 < m) :
    (Rounding.of m q).onGrid? (shortest m q).exponent = some (shortest m q).coefficient ∧
      -340 ≤ (shortest m q).exponent ∧ (shortest m q).exponent ≤ 309 ∧
      ((shortest m q).exponent < 309 →
        (Rounding.of m q).onGrid? ((shortest m q).exponent + 1) = none) := by
  have hmet : (Rounding.of m q).onGrid? (309 - (649 : Nat)) ≠ none := onGrid?_last hm h.least_le
  exact Rounding.search_spec (by decide : 649 < 650) hmet

/-- The shortest decimal rounds to its double. -/
theorem covers_shortest (h : IsDouble m q) (hm : 0 < m) :
    (Rounding.of m q).Covers (shortest m q).value :=
  Rounding.covers_of_onGrid? (shortest_search h hm).1

/-- The shortest decimal of a positive double is positive. -/
theorem shortest_coefficient_pos (h : IsDouble m q) (hm : 0 < m) :
    0 < (shortest m q).coefficient := by
  have hlow : (0 : ℚ) < (Rounding.of m q).low :=
    Nat.cast_pos.mpr (Rounding.of_bounds (q := q) hm).2.2.1
  have hvalue := (mul_pos hlow (zpow_pos two_pos _)).trans_le (covers_shortest h hm).between.1
  refine Nat.pos_of_ne_zero fun hzero => ?_
  simp [Decimal.value, hzero] at hvalue

/-- The shortest decimal is at most the upper end of the greatest binade of its double. -/
theorem shortest_value_le (h : IsDouble m q) (hm : 0 < m) :
    (shortest m q).value ≤ 2 ^ 55 * 2 ^ (q - 2) := by
  have hhigh : ((Rounding.of m q).high : ℚ) ≤ 2 ^ 55 := by
    have hlt := h.significand_lt
    have : (Rounding.of m q).high ≤ 2 ^ 55 := by
      dsimp only [Rounding.of]
      omega
    exact_mod_cast this
  exact (covers_shortest h hm).between.2.trans
    (mul_le_mul_of_nonneg_right hhigh (zpow_pos two_pos _).le)

/-- No double reaches the coarsest grid. -/
theorem shortest_exponent_lt (h : IsDouble m q) (hm : 0 < m) : (shortest m q).exponent < 309 := by
  by_contra hge
  have hcoefficient : (1 : ℚ) ≤ (shortest m q).coefficient := by
    exact_mod_cast shortest_coefficient_pos h hm
  have hpower : (10 : ℚ) ^ (309 : Int) ≤ 10 ^ (shortest m q).exponent :=
    zpow_le_zpow_right₀ (by norm_num) (not_lt.mp hge)
  have hunit : (2 : ℚ) ^ (q - 2) ≤ 2 ^ (969 : Int) :=
    zpow_le_zpow_right₀ one_le_two (by have := h.le_greatest; omega)
  have hless : (2 : ℚ) ^ 55 * 2 ^ (969 : Int) < 10 ^ (309 : Int) := by
    have hnat : 2 ^ 55 * 2 ^ 969 < 10 ^ 309 := by decide +kernel
    exact_mod_cast hnat
  have hvalue := shortest_value_le h hm
  unfold Decimal.value at hvalue
  have hleast : (10 : ℚ) ^ (309 : Int) ≤
      (shortest m q).coefficient * 10 ^ (shortest m q).exponent :=
    hpower.trans (le_mul_of_one_le_left (by positivity) hcoefficient)
  have hmost : (2 : ℚ) ^ 55 * 2 ^ (q - 2) ≤ 2 ^ 55 * 2 ^ (969 : Int) := by gcongr
  exact absurd (hleast.trans (hvalue.trans hmost)) (not_le.mpr hless)

/-- The shortest decimal has at most eighteen digits. -/
theorem shortest_coefficient_lt (h : IsDouble m q) (hm : 0 < m) :
    (shortest m q).coefficient < 10 ^ 18 := by
  obtain ⟨hlow, hhigh, -, hwide⟩ := Rounding.of_bounds (q := q) hm
  have hnone := (shortest_search h hm).2.2.2 (shortest_exponent_lt h hm)
  have hwidth := Rounding.width_le_of_onGrid?_eq_none hlow hhigh hnone
  have hthree : (3 : ℚ) ≤ (Rounding.of m q).high - (Rounding.of m q).low := by
    rw [le_sub_iff_add_le']
    exact_mod_cast hwide
  have hunit : (0 : ℚ) < 2 ^ (q - 2) := zpow_pos two_pos _
  have hgrid : (0 : ℚ) < 10 ^ (shortest m q).exponent := by positivity
  have hvalue := shortest_value_le h hm
  change ((Rounding.of m q).high - (Rounding.of m q).low : ℚ) * 2 ^ (q - 2) ≤ _ at hwidth
  rw [zpow_add_one₀ (by norm_num)] at hwidth
  have hstep : 3 * (2 : ℚ) ^ (q - 2) ≤ 10 * 10 ^ (shortest m q).exponent := by nlinarith
  have hbound : ((shortest m q).coefficient : ℚ) * 10 ^ (shortest m q).exponent <
      10 ^ 18 * 10 ^ (shortest m q).exponent := by
    unfold Decimal.value at hvalue
    nlinarith
  exact_mod_cast lt_of_mul_lt_mul_right hbound hgrid.le

end Shortest

end MarketFeed.Number
