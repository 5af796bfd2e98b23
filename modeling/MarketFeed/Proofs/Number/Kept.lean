import MarketFeed.Proofs.Number.Layout

/-!
# The digits a document keeps

A document keeps the digits of a numeral as long as they fit a word. From the first whole digit that
does not fit, whole digits only raise the power of ten, and the fraction ends at its first digit
that does not fit. A fraction digit that still fits is added even behind whole digits that were left
out, in the place of the first of them.

So what is kept may be more or less than what the numeral denotes, but both lie in the same step of
a count that has more than `2 ^ 60` of them.
-/

namespace MarketFeed.Number

variable {d : Digit} {v k t : Nat} {p : Int}

/-! ## Whole digits -/

/-- A word that has no room for another digit. -/
def IsFull (v : Nat) : Prop := wordMax < 10 * v + 10

/-- A full word is large. -/
theorem IsFull.le (h : IsFull v) : 2 ^ 60 ≤ v := by
  have hword : 10 * 2 ^ 60 ≤ wordMax := by decide
  unfold IsFull at h
  omega

/-- A word into which a digit does not fit is full. -/
theorem isFull_of_not_le (h : ¬10 * v + d.val ≤ wordMax) : IsFull v := by
  have hd := d.isLt
  unfold IsFull
  omega

/-- Whole digits behind those that are kept leave the count in the step it is in, and none is left
out unless the word is full. -/
theorem addWhole_bounds (ds : List Digit) (hlow : v * 10 ^ k ≤ t) (hhigh : t < (v + 1) * 10 ^ k)
    (hfull : 0 < k → IsFull v) :
    ∃ v' k' : Nat, Significand.addWhole ⟨v, k⟩ ds = ⟨v', k'⟩ ∧
      v' * 10 ^ k' ≤ t * 10 ^ ds.length + ofDigits ds ∧
      t * 10 ^ ds.length + ofDigits ds < (v' + 1) * 10 ^ k' ∧ (0 < k' → IsFull v') := by
  induction ds generalizing v k t with
  | nil => exact ⟨v, k, rfl, by simpa [ofDigits] using hlow, by simpa [ofDigits] using hhigh, hfull⟩
  | cons d ds ih =>
    have hd := d.isLt
    rw [count_cons, Significand.addWhole]
    split_ifs with hfits
    · obtain rfl : k = 0 := Int.natCast_eq_zero.mp hfits.1
      obtain rfl : t = v := by omega
      exact ih (k := 0) (by simp) (by simp) (fun h => absurd h (lt_irrefl 0))
    · refine ih (v := v) (k := k + 1) ?_ ?_ fun _ => ?_
      · rw [pow_succ, ← Nat.mul_assoc]
        omega
      · rw [pow_succ, ← Nat.mul_assoc]
        omega
      · rcases Nat.eq_zero_or_pos k with rfl | hk
        · exact isFull_of_not_le fun h => hfits ⟨rfl, h⟩
        · exact hfull hk

/-! ## Fraction digits -/

/-- Fraction digits that are added stay in the step of the last digit before them. -/
theorem addFraction_within (v : Nat) (p : Int) (ds : List Digit) :
    (v * 10 ^ p : ℚ) ≤ (Significand.addFraction ⟨v, p⟩ ds).value *
        10 ^ (Significand.addFraction ⟨v, p⟩ ds).power ∧
      ((Significand.addFraction ⟨v, p⟩ ds).value : ℚ) *
        10 ^ (Significand.addFraction ⟨v, p⟩ ds).power < (v + 1) * 10 ^ p := by
  induction ds generalizing v p with
  | nil =>
    have hpos : (0 : ℚ) < 10 ^ p := zpow_pos (by norm_num) p
    rw [Significand.addFraction]
    exact ⟨le_rfl, by linarith⟩
  | cons d ds ih =>
    have hstep : (10 : ℚ) ^ p = 10 * 10 ^ (p - 1) := by
      rw [← zpow_one_add₀ (by norm_num)]
      congr 1
      omega
    have hpos : (0 : ℚ) < 10 ^ (p - 1) := zpow_pos (by norm_num) _
    have hd : (d.val : ℚ) + 1 ≤ 10 := by exact_mod_cast d.isLt
    rw [Significand.addFraction]
    split_ifs
    · obtain ⟨hlow, hhigh⟩ := ih (10 * v + d.val) (p - 1)
      push_cast at hlow hhigh
      rw [hstep]
      constructor
      · refine le_trans ?_ hlow
        nlinarith [d.val.cast_nonneg (α := ℚ)]
      · refine hhigh.trans_le ?_
        nlinarith
    · exact ⟨le_rfl, by nlinarith⟩

/-- Fraction digits behind a word that is exact are all added, or the word is full and what is left
out stays in the step of its last digit. -/
theorem addFraction_exact_or (v : Nat) (p : Int) (ds : List Digit) :
    Significand.addFraction ⟨v, p⟩ ds = ⟨v * 10 ^ ds.length + ofDigits ds, p - ds.length⟩ ∨
      IsFull (Significand.addFraction ⟨v, p⟩ ds).value ∧
        ((Significand.addFraction ⟨v, p⟩ ds).value : ℚ) *
            10 ^ (Significand.addFraction ⟨v, p⟩ ds).power ≤
          (v * 10 ^ ds.length + ofDigits ds : Nat) * 10 ^ (p - ds.length) ∧
        ((v * 10 ^ ds.length + ofDigits ds : Nat) * 10 ^ (p - ds.length) : ℚ) ≤
          ((Significand.addFraction ⟨v, p⟩ ds).value + 1) *
            10 ^ (Significand.addFraction ⟨v, p⟩ ds).power := by
  induction ds generalizing v p with
  | nil => exact .inl (by simp [Significand.addFraction, ofDigits])
  | cons d ds ih =>
    have hplaces : p - (d :: ds).length = p - 1 - ds.length := by
      rw [List.length_cons]
      push_cast
      omega
    rw [count_cons, hplaces, Significand.addFraction]
    split_ifs with hfits
    · exact ih _ _
    · refine .inr ⟨isFull_of_not_le hfits, ?_⟩
      have hrest := ofDigits_lt ds
      have hd := d.isLt
      have hunit : (0 : ℚ) < 10 ^ (p - 1 - ds.length) := zpow_pos (by norm_num) _
      have hstep : (10 : ℚ) ^ p = (10 * 10 ^ ds.length : Nat) * 10 ^ (p - 1 - ds.length) := by
        push_cast
        rw [← zpow_natCast, ← zpow_one_add₀ (by norm_num), ← zpow_add₀ (by norm_num)]
        congr 1
        omega
      have hlow : v * (10 * 10 ^ ds.length) ≤ (10 * v + d.val) * 10 ^ ds.length + ofDigits ds := by
        nlinarith
      have hhigh : (10 * v + d.val) * 10 ^ ds.length + ofDigits ds ≤
          (v + 1) * (10 * 10 ^ ds.length) := by
        nlinarith
      rw [hstep, ← mul_assoc, ← mul_assoc]
      constructor <;> refine mul_le_mul_of_nonneg_right ?_ hunit.le
      · exact_mod_cast hlow
      · exact_mod_cast hhigh

/-! ## What is kept -/

/-- Whole digits are added as long as they fit a word. -/
theorem addWhole_le (h : v ≤ wordMax) (p : Int) (ds : List Digit) :
    (Significand.addWhole ⟨v, p⟩ ds).value ≤ wordMax := by
  induction ds generalizing v p with
  | nil => exact h
  | cons d ds ih =>
    rw [Significand.addWhole]
    split_ifs with hfits
    · exact ih hfits.2 _
    · exact ih h _

/-- Fraction digits are added as long as they fit a word. -/
theorem addFraction_le (h : v ≤ wordMax) (p : Int) (ds : List Digit) :
    (Significand.addFraction ⟨v, p⟩ ds).value ≤ wordMax := by
  induction ds generalizing v p with
  | nil => exact h
  | cons d ds ih =>
    rw [Significand.addFraction]
    split_ifs with hfits
    · exact ih hfits _
    · exact h

/-- What is kept of a numeral fits a word. -/
theorem Numeral.kept_le_wordMax (n : Numeral) : n.kept.coefficient ≤ wordMax :=
  addFraction_le (addWhole_le (Nat.zero_le _) 0 n.whole) _ n.fraction

/-- Two numbers that lie in the same step of a count of at least `2 ^ 60` steps are near. -/
theorem abs_sub_le_of_step {x y : ℚ} (hv : 2 ^ 60 ≤ v) (hlow : v * 10 ^ p ≤ x)
    (hhigh : x ≤ (v + 1) * 10 ^ p) (hlow' : v * 10 ^ p ≤ y) (hhigh' : y ≤ (v + 1) * 10 ^ p) :
    |x - y| ≤ y / 2 ^ 60 := by
  have hmany : (2 ^ 60 : ℚ) ≤ v := by exact_mod_cast hv
  have hpos : (0 : ℚ) < 10 ^ p := zpow_pos (by norm_num) p
  have hstep : (10 : ℚ) ^ p ≤ y / 2 ^ 60 := by
    rw [le_div_iff₀ (by norm_num)]
    nlinarith
  rw [abs_le]
  constructor <;> linarith

/-- The fraction digits of a numeral add no more than one to its whole digits. -/
theorem exists_fraction_part (whole fraction : List Digit) :
    ∃ part : ℚ, (ofDigits (whole ++ fraction) * 10 ^ (-fraction.length : Int) : ℚ) =
      ofDigits whole + part ∧ 0 ≤ part ∧ part ≤ 1 := by
  have hdigits : (ofDigits fraction : ℚ) ≤ 10 ^ fraction.length := by
    exact_mod_cast (ofDigits_lt fraction).le
  have hpos : (0 : ℚ) < 10 ^ fraction.length := by positivity
  refine ⟨ofDigits fraction / 10 ^ fraction.length, ?_,
    div_nonneg (Nat.cast_nonneg _) hpos.le, div_le_one_of_le₀ hdigits hpos.le⟩
  rw [ofDigits_append, zpow_neg, zpow_natCast]
  push_cast
  field_simp

/-- The significand is near to the digits of the numeral. -/
theorem Numeral.abs_digits_sub_significand_le (n : Numeral) :
    |(ofDigits (n.whole ++ n.fraction) * 10 ^ (-n.fraction.length : Int) : ℚ) -
        n.significand.value * 10 ^ n.significand.power| ≤
      n.significand.value * 10 ^ n.significand.power / 2 ^ 60 := by
  obtain ⟨v, k, hwhole, hlow, hhigh, hfull⟩ :=
    addWhole_bounds (v := 0) (k := 0) (t := 0) n.whole (by simp) (by simp)
      (fun h => absurd h (lt_irrefl 0))
  rw [Nat.zero_mul, Nat.zero_add] at hlow hhigh
  have hsignificand : n.significand = Significand.addFraction ⟨v, k⟩ n.fraction :=
    congrArg (Significand.addFraction · n.fraction) hwhole
  rw [hsignificand]
  rcases Nat.eq_zero_or_pos k with rfl | hk
  · obtain rfl : ofDigits n.whole = v := by omega
    rw [Nat.cast_zero, ofDigits_append]
    rcases addFraction_exact_or (ofDigits n.whole) 0 n.fraction with
      hexact | ⟨hfull, hlow, hhigh⟩
    · rw [hexact, Int.zero_sub, sub_self, abs_zero]
      exact div_nonneg (mul_nonneg (Nat.cast_nonneg _) (zpow_pos (by norm_num) _).le) (by norm_num)
    · rw [Int.zero_sub] at hlow hhigh
      have hpos : (0 : ℚ) < 10 ^ (Significand.addFraction ⟨ofDigits n.whole, 0⟩ n.fraction).power :=
        zpow_pos (by norm_num) _
      exact abs_sub_le_of_step hfull.le hlow hhigh le_rfl (by linarith)
  · obtain ⟨hlow', hhigh'⟩ := addFraction_within v k n.fraction
    obtain ⟨part, hdigits, hpart, hpart'⟩ := exists_fraction_part n.whole n.fraction
    have hcount : (v * 10 ^ (k : Int) : ℚ) ≤ ofDigits n.whole ∧
        (ofDigits n.whole + 1 : ℚ) ≤ (v + 1) * 10 ^ (k : Int) := by
      rw [zpow_natCast]
      exact ⟨by exact_mod_cast hlow, by exact_mod_cast hhigh⟩
    rw [hdigits]
    exact abs_sub_le_of_step (hfull hk).le (by linarith) (by linarith) hlow' hhigh'.le

/-- What is kept of a numeral is near to what it denotes. -/
theorem Numeral.abs_value_sub_kept_le (n : Numeral) :
    |n.decimal.value - n.kept.value| ≤ n.kept.value / 2 ^ 60 := by
  have hten : (10 : ℚ) ≠ 0 := by norm_num
  have hnear := n.abs_digits_sub_significand_le
  simp only [Decimal.value, decimal, kept]
  generalize (n.exponent.map Exponent.power).getD 0 = shift
  have hpos : (0 : ℚ) < 10 ^ shift := zpow_pos (by norm_num) shift
  have hdecimal : (10 : ℚ) ^ (shift - n.fraction.length) =
      10 ^ (-n.fraction.length : Int) * 10 ^ shift := by
    rw [← zpow_add₀ hten, neg_add_eq_sub]
  rw [hdecimal, zpow_add₀ hten, ← mul_assoc, ← mul_assoc, ← sub_mul, abs_mul, abs_of_pos hpos,
    mul_div_right_comm]
  exact mul_le_mul_of_nonneg_right hnear hpos.le

/-- A decimal is zero exactly if its digits are. -/
theorem Decimal.value_eq_zero_iff {d : Decimal} : d.value = 0 ↔ d.coefficient = 0 := by
  have hpos : (10 : ℚ) ^ d.exponent ≠ 0 := zpow_ne_zero _ (by norm_num)
  rw [Decimal.value, mul_eq_zero, or_iff_left hpos, Nat.cast_eq_zero]

/-- What is kept of a numeral is zero exactly if the numeral is. -/
theorem Numeral.kept_eq_zero_iff (n : Numeral) :
    n.kept.coefficient = 0 ↔ n.decimal.coefficient = 0 := by
  have hnear := abs_le.mp n.abs_value_sub_kept_le
  rw [← Decimal.value_eq_zero_iff, ← Decimal.value_eq_zero_iff]
  constructor
  · intro hkept
    rw [hkept] at hnear
    linarith [hnear.1, hnear.2]
  · intro hdecimal
    have hnonneg : 0 ≤ n.kept.value := by
      have := (abs_nonneg _).trans n.abs_value_sub_kept_le
      linarith
    rw [hdecimal] at hnear
    linarith [hnear.1]

end MarketFeed.Number
