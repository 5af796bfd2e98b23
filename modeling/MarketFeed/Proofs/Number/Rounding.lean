import MarketFeed.Proofs.Number.Interval

/-!
# Rounding to a double

A number is rounded by shifting digits out of its significand. Two bits keep where the number
lies above the digits that are left, and each shift halves the number that they locate. The shift
stops at the exponent of the double, and there the number is rounded to the nearest significand.

Main statements: a number that is rounded lies in the interval of the double it is rounded to, and
a number beyond the largest double is rounded to an exponent that no double has.
-/

namespace MarketFeed.Number

open Float.Model Float.Model.UnpackedFloat

/-! ## Digits shifted out -/

/-- The number `t` lies above the significand `m` where the accuracy says. -/
def Locates (accuracy : Accuracy) (m : Nat) (t : ℚ) : Prop :=
  match accuracy with
  | .exact => t = m
  | .inexact .lt => m < t ∧ t < m + 1 / 2
  | .inexact .eq => t = m + 1 / 2
  | .inexact .gt => m + 1 / 2 < t ∧ t < m + 1

/-- A number lies less than one above its significand. -/
theorem Locates.bounds {accuracy : Accuracy} {m : Nat} {t : ℚ} (h : Locates accuracy m t) :
    m ≤ t ∧ t < m + 1 := by
  unfold Locates at h
  split at h <;> constructor <;> linarith

/-- The two bits that stand for an accuracy give it back. -/
theorem accuracy_ofMantissaAndAccuracy (m : Nat) (accuracy : Accuracy) :
    (ExtendedMantissa.ofMantissaAndAccuracy m accuracy).accuracy = accuracy ∧
      (ExtendedMantissa.ofMantissaAndAccuracy m accuracy).mantissa = m := by
  rcases accuracy with _ | (_ | _ | _) <;> exact ⟨rfl, rfl⟩

/-- A shift by one digit halves the number. -/
theorem locates_shiftRightOne {em : ExtendedMantissa} {t : ℚ}
    (h : Locates em.accuracy em.mantissa t) :
    Locates em.shiftRightOne.accuracy em.shiftRightOne.mantissa (t / 2) := by
  obtain ⟨m, round, sticky⟩ := em
  have hdigits : ((m % 2 : Nat) : ℚ) + 2 * (m / 2 : Nat) = m := by
    exact_mod_cast Nat.mod_add_div m 2
  have hdigit : m % 2 = 0 ∨ m % 2 = 1 := Nat.mod_two_eq_zero_or_one m
  -- The digit shifted out becomes the first bit; the bits behind it only tell whether anything is
  -- left.
  rcases hdigit with hdigit | hdigit <;> rw [hdigit] at hdigits <;> cases round <;> cases sticky <;>
    simp only [ExtendedMantissa.accuracy, ExtendedMantissa.shiftRightOne, Locates, hdigit,
      bne_self_eq_false, Nat.reduceBneDiff, Bool.or_self, Bool.or_true, Bool.or_false] at h ⊢ <;>
    push_cast at hdigits <;> (try constructor) <;> linarith

/-- A shift by several digits divides the number by a power of two. -/
theorem locates_shiftRight {em : ExtendedMantissa} {t : ℚ} (n : Nat)
    (h : Locates em.accuracy em.mantissa t) :
    Locates (em >>> n).accuracy (em >>> n).mantissa (t / 2 ^ n) := by
  have hshift : em >>> n = n.repeat ExtendedMantissa.shiftRightOne em := rfl
  rw [hshift]
  clear hshift
  induction n with
  | zero => simpa [Nat.repeat] using h
  | succ n ih =>
    rw [pow_succ, ← div_div]
    exact locates_shiftRightOne ih

/-- What is located is rounded to the nearest whole number. -/
theorem isNearest_roundToNearestEven {accuracy : Accuracy} {m : Nat} {t : ℚ}
    (h : Locates accuracy m t) : IsNearest t (accuracy.roundToNearestEven m) := by
  rcases accuracy with _ | (_ | _ | _)
  · obtain rfl : t = m := h
    change IsNearest m m
    exact ⟨by linarith, by linarith, by rintro (h' | h') <;> linarith⟩
  · obtain ⟨hlow, hhigh⟩ : (m : ℚ) < t ∧ t < m + 1 / 2 := h
    exact ⟨by dsimp only [Accuracy.roundToNearestEven]; linarith, hhigh.le,
      by rintro (h' | h') <;> dsimp only [Accuracy.roundToNearestEven] at h' <;> linarith⟩
  · -- A tie: an even significand stays, an odd one goes up.
    obtain rfl : t = m + 1 / 2 := h
    rcases Nat.mod_two_eq_zero_or_one m with hm | hm <;>
      refine ⟨?_, ?_, fun _ => ?_⟩ <;> simp only [Accuracy.roundToNearestEven, hm] <;> push_cast <;>
      first | linarith | omega
  · obtain ⟨hlow, hhigh⟩ : (m : ℚ) + 1 / 2 < t ∧ t < m + 1 := h
    have hround : (((Accuracy.inexact .gt).roundToNearestEven m : Nat) : ℚ) = m + 1 := by
      dsimp only [Accuracy.roundToNearestEven]
      push_cast
      rfl
    exact ⟨by linarith, by linarith, by rintro (h' | h') <;> linarith⟩

/-! ## The exponent of a double -/

/-- The exponent that a significand of 53 digits has, or the least exponent of a double. -/
def targetOf (m : Nat) (e : Int) : Int := max (totalExponent m e - 53) (-1074)

/-- The exponent that the format asks for. -/
theorem targetExponent_binary64 (m : Nat) (e : Int) :
    Format.binary64.targetExponent (totalExponent m e) = targetOf m e := rfl

/-- The first shift stops at the exponent of the double, and the digits that are left with the two
bits locate the number in units of its last place. -/
theorem shiftToTargetExponent_eq {accuracy : Accuracy} {m : Nat} {e : Int} {t : ℚ}
    (h : Locates accuracy m t) (he : e ≤ targetOf m e) :
    ∃ em, shiftToTargetExponent Format.binary64 m e accuracy = (em, targetOf m e) ∧
      Locates em.accuracy em.mantissa (t * 2 ^ e / 2 ^ targetOf m e) := by
  obtain ⟨n, hn⟩ := Int.eq_ofNat_of_zero_le (Int.sub_nonneg.mpr he)
  obtain ⟨hem, hmantissa⟩ := accuracy_ofMantissaAndAccuracy m accuracy
  have hstart : Locates (ExtendedMantissa.ofMantissaAndAccuracy m accuracy).accuracy
      (ExtendedMantissa.ofMantissaAndAccuracy m accuracy).mantissa t := by
    rwa [hem, hmantissa]
  have hlocates := locates_shiftRight n hstart
  have hunit : t * 2 ^ e / 2 ^ targetOf m e = t / 2 ^ n := by
    rw [show targetOf m e = e + n by omega, zpow_add₀ two_ne_zero, zpow_natCast]
    have htwo : (2 : ℚ) ^ e ≠ 0 := zpow_ne_zero _ two_ne_zero
    field_simp
  refine ⟨_, ?_, hunit ▸ hlocates⟩
  rw [shiftToTargetExponent, targetExponent_binary64, shiftToExponent, hn, Int.toNat_natCast]
  exact Prod.ext rfl (by dsimp only; omega)

/-- The number `t · 2 ^ e` is counted in units of the last place of a double: it has at most 53
digits, and as many unless the exponent is the least one. -/
structure InUnits (t : ℚ) (e : Int) : Prop where
  nonneg : 0 ≤ t
  lt_pow : t < 2 ^ 53
  least_le : -1074 ≤ e
  hidden : e ≠ -1074 → 2 ^ 52 ≤ t

/-- At the exponent of the double a number is counted in units of its last place. -/
theorem inUnits_targetOf {m : Nat} {e : Int} {t : ℚ} (hlow : m ≤ t) (hhigh : t < m + 1)
    (he : e ≤ targetOf m e) : InUnits (t * 2 ^ e / 2 ^ targetOf m e) (targetOf m e) := by
  have hpos : (0 : ℚ) < 2 ^ targetOf m e := zpow_pos two_pos _
  have hunit : (0 : ℚ) < 2 ^ e := zpow_pos two_pos _
  have hnonneg : 0 ≤ t := (Nat.cast_nonneg m).trans hlow
  refine ⟨by positivity, (div_lt_iff₀ hpos).mpr ?_, le_max_right _ _,
    fun hleast => (le_div_iff₀ hpos).mpr ?_⟩
  · have hdigits : (m : ℚ) + 1 ≤ 2 ^ (m.log2 + 1) := by exact_mod_cast Nat.lt_log2_self
    have hexponent : (m.log2 + 1 : Nat) + e ≤ 53 + targetOf m e := by
      unfold targetOf totalExponent
      push_cast
      omega
    calc t * 2 ^ e < (m + 1) * 2 ^ e := by gcongr
      _ ≤ 2 ^ (m.log2 + 1) * 2 ^ e := by gcongr
      _ = 2 ^ ((m.log2 + 1 : Nat) + e) := by rw [zpow_add₀ two_ne_zero, zpow_natCast]
      _ ≤ 2 ^ (53 + targetOf m e) := zpow_le_zpow_right₀ one_le_two hexponent
      _ = 2 ^ 53 * 2 ^ targetOf m e := by rw [zpow_add₀ two_ne_zero]; rfl
  · have htarget : targetOf m e = m.log2 + 1 + e - 53 := by
      unfold targetOf totalExponent at hleast ⊢
      omega
    have hm : m ≠ 0 := by
      rintro rfl
      rw [Nat.log2_zero] at htarget
      omega
    have hdigits : (2 : ℚ) ^ m.log2 ≤ m := by exact_mod_cast Nat.log2_self_le hm
    calc (2 : ℚ) ^ 52 * 2 ^ targetOf m e = 2 ^ (52 + targetOf m e) := by
          rw [zpow_add₀ two_ne_zero]; rfl
      _ = 2 ^ (m.log2 + e) := by congr 1; omega
      _ = 2 ^ m.log2 * 2 ^ e := by rw [zpow_add₀ two_ne_zero, zpow_natCast]
      _ ≤ t * 2 ^ e := by gcongr; exact hdigits.trans hlow

/-- A significand that was rounded up to a power of two with one digit too many is carried over to
the next exponent. -/
def carried (r : Nat) (e : Int) : Nat × Int := if r = 2 ^ 53 then (2 ^ 52, e + 1) else (r, e)

/-- The second shift is the carry. -/
theorem shiftToTargetExponent_exact {r : Nat} {e : Int} (hr : r ≤ 2 ^ 53) (he : -1074 ≤ e) :
    (shiftToTargetExponent Format.binary64 r e .exact).1.mantissa = (carried r e).1 ∧
      (shiftToTargetExponent Format.binary64 r e .exact).2 = (carried r e).2 := by
  rw [shiftToTargetExponent, targetExponent_binary64, shiftToExponent, carried]
  split_ifs with hcarry
  · have hone : (targetOf r e - e).toNat = 1 := by
      rw [targetOf, totalExponent, hcarry, Nat.log2_two_pow]
      omega
    rw [hone, hcarry]
    exact ⟨rfl, rfl⟩
  · have hdigits : r.log2 < 53 := by
      rcases Nat.eq_zero_or_pos r with rfl | hpos
      · rw [Nat.log2_zero]
        decide
      · exact (Nat.log2_lt hpos.ne').mpr (by omega)
    have hzero : (targetOf r e - e).toNat = 0 := by
      rw [targetOf, totalExponent]
      omega
    rw [hzero]
    exact ⟨rfl, by simp⟩

/-! ## What is rounded -/

/-- The least number that rounds beyond the largest double. -/
def overflowLimit : ℚ := (2 ^ 54 - 1) * 2 ^ (970 : Int)

/-- A signed magnitude; zero has no exponent. -/
def magnitude (sign : Sign) (m : Nat) (q : Int) : UnpackedFloat :=
  if h : m = 0 then .zero sign else .finite sign m q (Nat.pos_of_ne_zero h)

section Carried

variable {t : ℚ} {r : Nat} {e : Int}

/-- The nearest significand of a number in units of its last place has one digit more at most. -/
theorem InUnits.nearest_le (ht : InUnits t e) (h : IsNearest t r) : r ≤ 2 ^ 53 := by
  have : (r : ℚ) < 2 ^ 53 + 1 := by linarith [h.low_le, ht.lt_pow]
  exact Nat.le_of_lt_succ (by exact_mod_cast this)

/-- A number that is not beyond the largest double has an exponent that leaves room for the
carry. -/
theorem InUnits.exponent_le (ht : InUnits t e) (h : IsNearest t r)
    (hlimit : t * 2 ^ e < overflowLimit) : e ≤ 971 ∧ (r = 2 ^ 53 → e ≤ 970) := by
  have hlast : (2 : ℚ) ^ (971 : Int) = 2 * 2 ^ (970 : Int) := zpow_one_add₀ two_ne_zero 970
  have hnext : (2 : ℚ) ^ (972 : Int) = 2 * 2 ^ (971 : Int) := zpow_one_add₀ two_ne_zero 971
  have hpos : (0 : ℚ) < 2 ^ (970 : Int) := zpow_pos two_pos _
  rw [overflowLimit] at hlimit
  constructor
  · by_contra hlarge
    have hunits : (2 : ℚ) ^ (972 : Int) ≤ 2 ^ e := zpow_le_zpow_right₀ one_le_two (by omega)
    have hmany : (2 : ℚ) ^ 52 * 2 ^ (972 : Int) ≤ t * 2 ^ e :=
      mul_le_mul (ht.hidden (by omega)) hunits (zpow_pos two_pos _).le ht.nonneg
    rw [hnext, hlast] at hmany
    generalize (2 : ℚ) ^ (970 : Int) = unit at hpos hmany hlimit
    linarith only [hpos, hmany, hlimit]
  · rintro rfl
    by_contra hlarge
    have hunits : (2 : ℚ) ^ (971 : Int) ≤ 2 ^ e := zpow_le_zpow_right₀ one_le_two (by omega)
    have hlow := h.low_le
    push_cast at hlow
    have hmany : ((2 : ℚ) ^ 53 - 1 / 2) * 2 ^ (971 : Int) ≤ t * 2 ^ e :=
      mul_le_mul hlow hunits (zpow_pos two_pos _).le ht.nonneg
    rw [hlast] at hmany
    generalize (2 : ℚ) ^ (970 : Int) = unit at hpos hmany hlimit
    linarith only [hpos, hmany, hlimit]

/-- The nearest significand of a number, with its carry, is that of a double. -/
theorem InUnits.isDouble_carried (ht : InUnits t e) (h : IsNearest t r)
    (hlimit : t * 2 ^ e < overflowLimit) : IsDouble (carried r e).1 (carried r e).2 := by
  obtain ⟨hgreatest, hroom⟩ := ht.exponent_le h hlimit
  have hr := ht.nearest_le h
  have hleast := ht.least_le
  unfold carried
  split_ifs with hcarry
  · have := hroom hcarry
    dsimp only
    exact ⟨by decide, by omega, by omega, fun _ => le_rfl⟩
  · refine ⟨Nat.lt_of_le_of_ne hr hcarry, hleast, hgreatest, fun hhidden => ?_⟩
    have : (2 ^ 52 : ℚ) < r + 1 := by linarith [ht.hidden hhidden, h.le_high]
    exact Nat.le_of_lt_succ (by exact_mod_cast this)

/-- A number lies in the interval of the double with its nearest significand and the carry. -/
theorem InUnits.covers_carried (ht : InUnits t e) (h : IsNearest t r) :
    (Rounding.of (carried r e).1 (carried r e).2).Covers (t * 2 ^ e) := by
  unfold carried
  split_ifs with hcarry
  · -- After a carry the number is at most a quarter below a power of two.
    have hhalf : t * 2 ^ e = t / 2 * 2 ^ (e + 1) := by
      rw [zpow_add_one₀ two_ne_zero]
      ring
    have hnext : e + 1 ≠ -1074 := by
      have := ht.least_le
      omega
    have hlow := h.low_le
    have hless := ht.lt_pow
    dsimp only
    rw [hhalf, Rounding.covers_mul_zpow, if_pos (by decide), Rounding.low_of, if_pos ⟨rfl, hnext⟩]
    rw [hcarry] at hlow
    push_cast at hlow ⊢
    constructor <;> linarith
  · refine Rounding.covers_of_isNearest h ht.nonneg fun hpower hhidden => ?_
    rw [hpower]
    exact_mod_cast ht.hidden hhidden

/-- A number beyond the largest double has, with the carry, an exponent that no double has. -/
theorem InUnits.overflow (ht : InUnits t e) (h : IsNearest t r)
    (hlimit : overflowLimit ≤ t * 2 ^ e) : 0 < (carried r e).1 ∧ 972 ≤ (carried r e).2 := by
  have hpos : (0 : ℚ) < 2 ^ (970 : Int) := zpow_pos two_pos _
  have hgreatest : 971 ≤ e := by
    by_contra hsmall
    have hunits : (2 : ℚ) ^ e ≤ 2 ^ (970 : Int) := zpow_le_zpow_right₀ one_le_two (by omega)
    have hfew : t * 2 ^ e ≤ 2 ^ 53 * 2 ^ (970 : Int) :=
      mul_le_mul ht.lt_pow.le hunits (zpow_pos two_pos _).le (by norm_num)
    rw [overflowLimit] at hlimit
    have hmany := hlimit.trans hfew
    generalize (2 : ℚ) ^ (970 : Int) = unit at hpos hmany
    linarith only [hpos, hmany]
  have hsome : 0 < r := by
    have hhidden := ht.hidden (by omega)
    have hhigh := h.le_high
    have : (0 : ℚ) < r := by linarith
    exact_mod_cast this
  unfold carried
  split_ifs with hcarry
  · exact ⟨Nat.two_pow_pos 52, by dsimp only; omega⟩
  · refine ⟨hsome, ?_⟩
    by_contra hsmall
    obtain rfl : e = 971 := by omega
    have hlast : (2 : ℚ) ^ (971 : Int) = 2 * 2 ^ (970 : Int) := zpow_one_add₀ two_ne_zero 970
    have hleast : (2 : ℚ) ^ 53 - 1 / 2 ≤ t := by
      rw [overflowLimit, hlast] at hlimit
      generalize (2 : ℚ) ^ (970 : Int) = unit at hpos hlimit
      nlinarith only [hpos, hlimit]
    -- Only the largest significand is near enough, and it is odd.
    obtain rfl : r = 2 ^ 53 - 1 := by
      have hmost := ht.nearest_le h
      have hhigh := h.le_high
      have : (2 ^ 53 : ℚ) ≤ r + 1 := by linarith
      have : 2 ^ 53 ≤ r + 1 := by exact_mod_cast this
      omega
    have hhigh := h.le_high
    have htie : t = (2 ^ 53 - 1 : Nat) + 1 / 2 := by
      push_cast at hhigh ⊢
      linarith
    exact absurd (h.even (.inr htie)) (by decide)

end Carried

/-- A number that is located above a significand is rounded to its nearest significand in units of
the last place, with the carry. -/
theorem roundWithAccuracy_eq {accuracy : Accuracy} {m : Nat} {e : Int} {t : ℚ} (sign : Sign)
    (h : Locates accuracy m t) (he : e ≤ targetOf m e) :
    ∃ u r, t * 2 ^ e = u * 2 ^ targetOf m e ∧ InUnits u (targetOf m e) ∧ IsNearest u r ∧
      roundWithAccuracy Format.binary64 sign m e accuracy =
        magnitude sign (carried r (targetOf m e)).1 (carried r (targetOf m e)).2 := by
  obtain ⟨hlow, hhigh⟩ := h.bounds
  obtain ⟨em, hshift, hlocates⟩ := shiftToTargetExponent_eq h he
  have hunits := inUnits_targetOf hlow hhigh he
  have hnearest := isNearest_roundToNearestEven hlocates
  obtain ⟨hmantissa, hexponent⟩ :=
    shiftToTargetExponent_exact (hunits.nearest_le hnearest) hunits.least_le
  refine ⟨_, _, (div_mul_cancel₀ _ (zpow_ne_zero _ two_ne_zero)).symm, hunits, hnearest, ?_⟩
  rw [roundWithAccuracy, hshift]
  dsimp only [ExtendedMantissa.roundedMantissa]
  exact congrArg₂ (magnitude _) hmantissa hexponent

end MarketFeed.Number
