import MarketFeed.Proofs.Number.Rescale

/-!
# Doubles that are written and read again

A document writes a finite double with its shortest decimal, and reads it by scaling. It always
reads a finite double of the same sign, less than six units in the last place away. Where the
digits that are written and their power of ten are doubles themselves, it reads the same double
again, bit for bit.
-/

namespace MarketFeed.Number

variable {negative : Bool} {m : Nat} {q : Int} {x y : Float}

/-- Two finite doubles of the same sign, the second less than so many units in the last place of
the first away from it. -/
def IsWithin (units : Nat) (x y : Float) : Prop :=
  ∃ negative m q n r, Shape.ofFloat x = .finite negative m q ∧
    Shape.ofFloat y = .finite negative n r ∧
      |(n * 2 ^ r - m * 2 ^ q : ℚ)| < units * 2 ^ q

/-- The digits of a decimal, as a whole number, and the power of ten that they count are doubles:
the digits fit the significand of a double once their factors of two are taken out, and `10 ^ 22` is
the last power of ten that is a double. -/
def Decimal.IsExact (d : Decimal) : Prop :=
  (∃ a < 64, 2 ^ a ∣ d.coefficient ∧ d.coefficient / 2 ^ a ≤ 2 ^ 53) ∧ d.exponent.natAbs ≤ 22

instance (d : Decimal) : Decidable d.IsExact := inferInstanceAs (Decidable (_ ∧ _))

/-- How a finite double comes back: as a double near it, and as itself if its decimal is exact. -/
structure ComesBackAs (x y : Float) : Prop where
  near : IsWithin 6 x y
  exact : (Numeral.ofFloat x).decimal.IsExact → y = x

/-! ## The decimal of a double -/

/-- What the numeral of a double denotes. -/
theorem decimal_ofFloat (hx : Shape.ofFloat x = .finite negative m q) (hm : 0 < m) :
    (Numeral.ofFloat x).decimal = ((shortest m q).numeral negative).decimal := by
  rw [Numeral.ofFloat, hx]
  dsimp only
  rw [finiteNumeral, if_neg hm.ne']

/-- The numeral of a positive double denotes a positive decimal of at most eighteen digits in the
interval of the double. -/
theorem decimal_numeral_shortest (h : IsDouble m q) (hm : 0 < m) (negative : Bool) :
    0 < ((shortest m q).numeral negative).decimal.coefficient ∧
      ((shortest m q).numeral negative).decimal.coefficient < 10 ^ 18 ∧
      -340 ≤ ((shortest m q).numeral negative).decimal.exponent ∧
      ((shortest m q).numeral negative).decimal.exponent ≤ 308 ∧
      (Rounding.of m q).Covers ((shortest m q).numeral negative).decimal.value := by
  obtain ⟨-, hleast, -, -⟩ := shortest_search h hm
  have hgreatest := shortest_exponent_lt h hm
  have hpos := shortest_coefficient_pos h hm
  rw [Decimal.value_decimal_numeral]
  refine ⟨?_, Decimal.coefficient_numeral_lt negative (shortest_coefficient_lt h hm), ?_, ?_,
    covers_shortest h hm⟩ <;>
    rcases Decimal.decimal_numeral negative (shortest m q) with hd | ⟨-, -, hd⟩ <;> rw [hd]
  · exact hpos
  · positivity
  · exact hleast
  · exact (by decide : (-340 : Int) ≤ -1)
  · exact Int.le_of_lt_add_one hgreatest
  · exact (by decide : (-1 : Int) ≤ 308)

/-- The double that a double is rounded to is itself. -/
theorem ofFloat_of_covers (h : IsDouble m q) {v : ℚ} (hcovers : (Rounding.of m q).Covers v)
    (hy : IsRounded y v) : Shape.ofFloat y = .finite false m q := by
  obtain ⟨n, r, hy, hcovers'⟩ := hy
  obtain ⟨rfl, rfl⟩ := eq_of_covers h (isDouble_of_ofBits hy) hcovers hcovers'
  exact hy

/-! ## What is read -/

/-- The decimal of a positive double is read as a double near it, and as the double itself if it is
exact. -/
theorem scale?_numeral_shortest (h : IsDouble m q) (hm : 0 < m) (negative : Bool) :
    ∃ y n r, scale? ((shortest m q).numeral negative).decimal.coefficient
        ((shortest m q).numeral negative).decimal.exponent = some y ∧
      Shape.ofFloat y = .finite false n r ∧ |(n * 2 ^ r - m * 2 ^ q : ℚ)| < 6 * 2 ^ q ∧
      (((shortest m q).numeral negative).decimal.IsExact → n = m ∧ r = q) := by
  obtain ⟨hpos, hlt, hleast, hgreatest, hcovers⟩ := decimal_numeral_shortest h hm negative
  have hword : ((shortest m q).numeral negative).decimal.coefficient ≤ wordMax :=
    hlt.le.trans (by decide)
  have hunit : (0 : ℚ) < 2 ^ q := zpow_pos two_pos q
  by_cases hexact : ((shortest m q).numeral negative).decimal.IsExact
  · obtain ⟨⟨a, -, hdivides, hfew⟩, hpower⟩ := id hexact
    obtain ⟨y, hy, hround⟩ := scale?_exact hpos hword hfew (Nat.div_mul_cancel hdivides).symm hpower
    refine ⟨y, m, q, hy, ofFloat_of_covers h hcovers hround, ?_, fun _ => ⟨rfl, rfl⟩⟩
    rw [sub_self, abs_zero]
    positivity
  · by_cases htop : q = 971 → m < 2 ^ 53 - 5
    · obtain ⟨y, v, hy, hround, hclose⟩ :=
        scale?_near h htop hpos hword (by omega) hgreatest hcovers
      have hnear := near_of_close h hcovers hclose hround
      obtain ⟨n, r, hshape, -⟩ := hround
      rw [absValue_eq hshape] at hnear
      exact ⟨y, n, r, hy, hshape, hnear, fun h => absurd h hexact⟩
    · obtain ⟨rfl, hlast⟩ := Classical.not_imp.mp htop
      have hmost := h.significand_lt
      obtain ⟨j, hj, hm'⟩ : ∃ j, j < 5 ∧ m = 2 ^ 53 - 1 - j := ⟨2 ^ 53 - 1 - m, by omega, by omega⟩
      have hscale := scale?_last negative j hj
      rw [← hm'] at hscale
      obtain ⟨y, hy, hshape⟩ := Option.map_eq_some_iff.mp hscale
      refine ⟨y, _, _, hy, hshape, ?_, fun h => absurd h hexact⟩
      have habove : m ≤ 2 ^ 53 - 1 - j / 2 * 2 ∧ 2 ^ 53 - 1 - j / 2 * 2 ≤ m + 1 := by omega
      generalize 2 ^ 53 - 1 - j / 2 * 2 = n at habove ⊢
      have hlow : (m : ℚ) ≤ n := by exact_mod_cast habove.1
      have hhigh : (n : ℚ) ≤ m + 1 := by exact_mod_cast habove.2
      rw [← sub_mul, abs_mul, abs_of_pos hunit, abs_of_nonneg (sub_nonneg.mpr hlow)]
      exact mul_lt_mul_of_pos_right (by linarith) hunit

/-- The decimal of a finite double is read as a double near its magnitude, and as the magnitude
itself if it is exact. -/
theorem scale?_decimal_ofFloat (hx : Shape.ofFloat x = .finite negative m q) :
    ∃ y n r, scale? (Numeral.ofFloat x).decimal.coefficient (Numeral.ofFloat x).decimal.exponent =
        some y ∧
      Shape.ofFloat y = .finite false n r ∧ |(n * 2 ^ r - m * 2 ^ q : ℚ)| < 6 * 2 ^ q ∧
      ((Numeral.ofFloat x).decimal.IsExact → n = m ∧ r = q) := by
  have hdouble := isDouble_of_ofBits hx
  rcases Nat.eq_zero_or_pos m with rfl | hm
  · have hdecimal : (Numeral.ofFloat x).decimal = ⟨0, -1⟩ := by
      rw [Numeral.ofFloat, hx]
      rfl
    have hq : q = -1074 := by
      by_contra hq
      exact absurd (hdouble.hidden hq) (by decide)
    rw [hdecimal, hq]
    refine ⟨0, _, _, scale?_zero (-1), isZero_zero, ?_, fun _ => ⟨rfl, rfl⟩⟩
    rw [sub_self, abs_zero]
    exact mul_pos (by norm_num) (zpow_pos two_pos _)
  · rw [decimal_ofFloat hx hm]
    exact scale?_numeral_shortest hdouble hm negative

/-- A finite double comes back from its numeral. -/
theorem quantity?_numeral_ofFloat (hx : isFinite x = true) :
    ∃ y, (Numeral.ofFloat x).quantity? = some (.double y) ∧ ComesBackAs x y := by
  obtain ⟨negative, m, q, hshape⟩ : ∃ negative m q, Shape.ofFloat x = .finite negative m q := by
    unfold isFinite at hx
    split at hx
    · exact ⟨_, _, _, ‹_›⟩
    · cases hx
  obtain ⟨y, n, r, hy, hmagnitude, hnear, hexact⟩ := scale?_decimal_ofFloat hshape
  have hsigned := ofFloat_signed negative hmagnitude
  refine ⟨signed negative y, ?_, ⟨negative, m, q, n, r, hshape, hsigned, hnear⟩, fun h => ?_⟩
  · rw [Numeral.quantity?_ofFloat hshape, hy]
    rfl
  · obtain ⟨rfl, rfl⟩ := hexact h
    exact eq_of_ofFloat hsigned hshape

end MarketFeed.Number
