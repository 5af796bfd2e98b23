import MarketFeed.Proofs.Number.Kept
import MarketFeed.Proofs.Number.Roundtrip
import MarketFeed.Proofs.Number.Text

/-!
# A number in quotes

A numeral is read in two ways: where it stands in a document for itself, the digits that are kept of
it are scaled; where it is a text in quotes, it is read as the double it rounds to. Main statement:
the two are less than six units in the last place apart, or the number is near the largest double,
where the text may be read as infinite. They are the same where the numeral is zero, or where no
digit is lost and the scaling rounds only once.
-/

namespace MarketFeed.Number

variable {n : Numeral} {x y z : Float} {m c k : Nat} {p q : Int} {u v w : ℚ}

/-! ## What is read of a numeral in a document -/

/-- A number rounds to one double only. -/
theorem IsRounded.unique (hx : IsRounded x v) (hy : IsRounded y v) : x = y := by
  obtain ⟨m, q, hx, hcovers⟩ := hx
  exact eq_of_ofFloat hx (ofFloat_of_covers (isDouble_of_ofBits hx) hcovers hy)

/-- A double rounds to itself. -/
theorem isRounded_self (hx : Shape.ofFloat x = .finite false m q) : IsRounded x (m * 2 ^ q) :=
  ⟨m, q, hx, Rounding.covers_of_isNearest (isNearest_natCast m) m.cast_nonneg fun _ _ => le_rfl⟩

/-- A word that counts no power of ten is read as the double it rounds to. -/
theorem scale?_whole (hword : c ≤ wordMax) : scale? c 0 = some c.toUInt64.toFloat := by
  rcases Nat.eq_zero_or_pos c with rfl | hc
  · rw [isZero_toFloat.eq, scale?_zero]
  · have hone : absValue (tenTo 0) = 1 := by
      simpa using (isRounded_tenTo (k := 0) (by decide)).absValue_ten_pow (by decide)
    have hscales := scalesTo_product (k := 0) hc hword (by decide)
    rw [hone, mul_one, Nat.cast_zero] at hscales
    obtain ⟨y, hy, hround⟩ := hscales.exists_isRounded
      (lt_overflowLimit_of_le ((absValue_toFloat_le hc hword).trans (by norm_num)))
    obtain ⟨m, q, hx, -⟩ := isRounded_toFloat hc hword
    rw [absValue_eq hx] at hround
    rw [hy, hround.unique (isRounded_self hx)]

/-- An integer of 64 bits is read from a numeral with its sign and its digits, which are all kept
and count no power of ten. -/
theorem Numeral.of_integer? {i : Int} (h : n.integer? = some i) :
    (n.kept = ⟨i.natAbs, 0⟩ ∧ n.decimal = ⟨i.natAbs, 0⟩) ∧ i.natAbs ≤ wordMax ∧
      decide (i < 0) = n.negative := by
  have hwords : Nat.pow 2 63 ≤ wordMax := by decide
  have hparts : n.fraction = [] ∧ n.exponent = none := by
    unfold integer? at h
    split_ifs at h with hparts <;> exact ⟨by simpa using (not_or.mp hparts).1,
      by simpa using (not_or.mp hparts).2⟩
  have hdecimal : n.decimal = ⟨ofDigits n.whole, 0⟩ := by
    rw [decimal, hparts.1, hparts.2, List.append_nil]
    rfl
  obtain ⟨hdigits, hword, hsign⟩ : ofDigits n.whole = i.natAbs ∧ i.natAbs ≤ wordMax ∧
      decide (i < 0) = n.negative := by
    unfold integer? at h
    dsimp only at h
    split_ifs at h with _ hnegative hrange hrange <;> obtain rfl := Option.some.inj h
    · refine ⟨by omega, by omega, ?_⟩
      rw [hnegative, decide_eq_true_eq]
      omega
    · refine ⟨by omega, by omega, ?_⟩
      rw [Bool.not_eq_true] at hnegative
      rw [hnegative, decide_eq_false_iff_not]
      omega
  rw [hdigits] at hdecimal
  exact ⟨⟨(kept_eq (by rwa [hdecimal])).trans hdecimal, hdecimal⟩, hword, hsign⟩

/-- A number that is read from a numeral whose exponent can be counted is what is kept of it,
scaled. -/
theorem Numeral.of_quantity? {quantity : Quantity} (h : n.quantity? = some quantity)
    (hcounted : ∀ e ∈ n.exponent, ofDigits e.digits ≤ exponentMax) :
    ∃ z, scale? n.kept.coefficient n.kept.exponent = some z ∧
      quantity.toFloat = signed n.negative z := by
  unfold quantity? at h
  split at h
  · obtain rfl := Option.some.inj h
    obtain ⟨⟨hkept, -⟩, hword, hsign⟩ := of_integer? ‹_›
    rw [hkept]
    refine ⟨_, scale?_whole hword, ?_⟩
    rw [Quantity.toFloat, floatOfInt, hsign]
  · obtain ⟨x, hx, rfl⟩ := Option.map_eq_some_iff.mp h
    rw [scaled?_eq_kept hcounted] at hx
    obtain ⟨z, hz, rfl⟩ := Option.map_eq_some_iff.mp hx
    exact ⟨z, hz, rfl⟩

/-! ## Two readings -/

/-- The numeral is zero, or no digit but zeros is lost of it and what is kept is rounded once: it
counts no power of ten, or its digits and its power of ten are doubles. -/
def Numeral.RoundsOnce (n : Numeral) : Prop :=
  n.decimal.coefficient = 0 ∨
    n.kept.value = n.decimal.value ∧ (n.kept.exponent = 0 ∨ n.kept.IsExact)

/-- An integer of 64 bits is rounded once. -/
theorem Numeral.roundsOnce_of_integer? {i : Int} (h : n.integer? = some i) : n.RoundsOnce := by
  obtain ⟨hkept, -⟩ := of_integer? h
  rw [RoundsOnce, hkept.1, hkept.2]
  exact .inr ⟨rfl, .inl rfl⟩

/-- The double `x` is beside the double `y` that a number rounds to: less than six units in the last
place away, or, if `y` is infinite, one of the last five doubles before it. -/
inductive IsBeside (y x : Float) : Prop
  | within (h : IsWithin 6 y x)
  | infinite {negative : Bool} {m : Nat} (hy : Shape.ofFloat y = .infinite negative)
      (hx : Shape.ofFloat x = .finite negative m 971) (hm : 2 ^ 53 - 6 < m)

/-- How a numeral is read in quotes, as `y`, if it is read as `x` without them. -/
structure Numeral.QuotedAs (n : Numeral) (x y : Float) : Prop where
  exact : n.RoundsOnce → y = x
  beside : IsBeside y x

/-- A finite double is beside itself. -/
theorem isBeside_self {negative : Bool} (hx : Shape.ofFloat x = .finite negative m q) :
    IsBeside x x := by
  refine .within ⟨negative, m, q, m, q, hx, hx, ?_⟩
  rw [sub_self, abs_zero]
  exact mul_pos (by norm_num) (zpow_pos two_pos q)

/-- What is read exactly is the double that the numeral rounds to. -/
theorem Numeral.RoundsOnce.isRounded (h : n.RoundsOnce) (hc : 0 < n.kept.coefficient)
    (hz : scale? n.kept.coefficient n.kept.exponent = some z) : IsRounded z n.decimal.value := by
  rcases h with hzero | ⟨hvalue, honce⟩
  · exact absurd (n.kept_eq_zero_iff.mpr hzero) hc.ne'
  · have hword := n.kept_le_wordMax
    rw [← hvalue]
    rcases honce with hpower | ⟨⟨a, -, hdivides, hfew⟩, hpower⟩
    · rw [hpower, scale?_whole hword] at hz
      obtain rfl := Option.some.inj hz
      rw [Decimal.value, hpower, zpow_zero, mul_one]
      exact isRounded_toFloat hc hword
    · obtain ⟨y, hy, hround⟩ :=
        scale?_exact hc hword hfew (Nat.div_mul_cancel hdivides).symm hpower
      obtain rfl := Option.some.inj (hz.symm.trans hy)
      exact hround

/-- A number that rounds to a double is read as a double near to it, if what is kept is near to the
number, and what is read is rounded near to what is kept. -/
theorem isWithin_of_near (hy : IsRounded y w) (hz : IsRounded z v) (hkept : |w - u| ≤ u / 2 ^ 60)
    (hread : |v - u| ≤ (4 + 1 / 2 ^ 37) / 2 ^ 53 * u + 2 ^ (-1074 : Int) / 16) :
    IsWithin 6 y z := by
  obtain ⟨m, q, hy, hcovers⟩ := hy
  have hdouble := isDouble_of_ofBits hy
  have hunit : (0 : ℚ) < 2 ^ q := zpow_pos two_pos q
  have hmost := hcovers.le_units hdouble
  have hlast : (2 : ℚ) ^ (-1074 : Int) ≤ 2 ^ q :=
    zpow_le_zpow_right₀ one_le_two hdouble.least_le
  have hclose : |v - w| ≤ (4 + 1 / 8) * 2 ^ q := by
    have hfirst := abs_le.mp hkept
    have hsecond := abs_le.mp hread
    generalize (2 : ℚ) ^ (-1074 : Int) = least at *
    rw [abs_le]
    constructor <;> linarith
  have hnear := near_of_close hdouble hcovers hclose hz
  obtain ⟨n, r, hz, -⟩ := hz
  rw [absValue_eq hz] at hnear
  exact ⟨false, m, q, n, r, hy, hz, hnear⟩

/-- A number beyond the largest double is read, if at all, as one of the last doubles. -/
theorem last_of_near (hw : overflowLimit ≤ w) (hz : IsRounded z v) (hkept : |w - u| ≤ u / 2 ^ 60)
    (hread : |v - u| ≤ (4 + 1 / 2 ^ 37) / 2 ^ 53 * u + 2 ^ (-1074 : Int) / 16) :
    ∃ m, Shape.ofFloat z = .finite false m 971 ∧ 2 ^ 53 - 6 < m := by
  obtain ⟨m, q, hz, hcovers⟩ := hz
  have hdouble := isDouble_of_ofBits hz
  have hpos : (0 : ℚ) < 2 ^ (970 : Int) := zpow_pos two_pos _
  have hleast : (2 : ℚ) ^ (-1074 : Int) ≤ 2 ^ (970 : Int) :=
    zpow_le_zpow_right₀ one_le_two (by decide)
  have hmany : (2 ^ 54 - 9 - 1 / 8) * 2 ^ (970 : Int) ≤ v := by
    have hfirst := abs_le.mp hkept
    have hsecond := abs_le.mp hread
    rw [overflowLimit] at hw
    generalize (2 : ℚ) ^ (-1074 : Int) = least at *
    generalize (2 : ℚ) ^ (970 : Int) = unit at *
    linarith
  have hgreatest : q = 971 := by
    by_contra hq
    have hunits : (2 : ℚ) ^ q ≤ 2 ^ (970 : Int) :=
      zpow_le_zpow_right₀ one_le_two (by have := hdouble.le_greatest; omega)
    have hmost := hcovers.le_units hdouble
    generalize (2 : ℚ) ^ (970 : Int) = unit at *
    linarith
  subst hgreatest
  refine ⟨m, hz, ?_⟩
  obtain ⟨t, rfl⟩ := exists_units v 971
  have hhigh := hcovers.isNearest.le_high
  have hlast : (2 : ℚ) ^ (971 : Int) = 2 * 2 ^ (970 : Int) := zpow_one_add₀ two_ne_zero 970
  have ht : (2 ^ 53 - 5 : ℚ) ≤ t := by
    rw [hlast] at hmany
    generalize (2 : ℚ) ^ (970 : Int) = unit at *
    nlinarith only [hmany, hpos]
  have hm : (2 ^ 53 : ℚ) < m + 6 := by linarith only [hhigh, ht]
  have : 2 ^ 53 < m + 6 := by exact_mod_cast hm
  omega

/-- A power of ten beyond the greatest one is refused, and below the least one nothing is left. -/
theorem scale?_outside (hc : 0 < c) (hz : scale? c p = some z) : p ≤ 308 ∧ (p < -616 → z = 0) := by
  unfold scale? at hz
  dsimp only at hz
  split_ifs at hz with hpos hgreatest hfinite hzero hquotient hquotients
  · exact ⟨hgreatest, by omega⟩
  · exact absurd hzero hc.ne'
  · exact ⟨by omega, by omega⟩
  · exact ⟨by omega, by omega⟩
  · exact ⟨by omega, fun _ => (Option.some.inj hz).symm⟩

/-- A number of which almost nothing is left rounds to zero. -/
theorem isRounded_zero_of_small (hw : 0 ≤ w) (hword : c ≤ wordMax) (hp : p < -616)
    (hkept : |w - c * 10 ^ p| ≤ c * 10 ^ p / 2 ^ 60) : IsRounded 0 w := by
  have hpower : (10 : ℚ) ^ p ≤ 10 ^ (-617 : Int) := zpow_le_zpow_right₀ (by norm_num) (by omega)
  have hsmall : (c : ℚ) * 10 ^ p ≤ 10 ^ (-597 : Int) := by
    calc (c : ℚ) * 10 ^ p ≤ 10 ^ 20 * 10 ^ (-617 : Int) :=
          mul_le_mul (cast_le_of_word hword) hpower (zpow_pos (by norm_num) p).le (by norm_num)
      _ = 10 ^ (-597 : Int) := by
          rw [← zpow_natCast, ← zpow_add₀ (by norm_num)]
          rfl
  have hless : 2 * (10 : ℚ) ^ (-597 : Int) ≤ 10 ^ (-331 : Int) := by
    calc 2 * (10 : ℚ) ^ (-597 : Int) ≤ 10 ^ (1 : Int) * 10 ^ (-597 : Int) := by
          gcongr
          norm_num
      _ = 10 ^ (-596 : Int) := by
          rw [← zpow_add₀ (by norm_num)]
          rfl
      _ ≤ 10 ^ (-331 : Int) := zpow_le_zpow_right₀ (by norm_num) (by decide)
  have hbounds := abs_le.mp hkept
  refine isRounded_zero hw (le_trans ?_ ten_pow_le_half_least)
  generalize (10 : ℚ) ^ (-597 : Int) = tiny at *
  generalize (10 : ℚ) ^ (-331 : Int) = small at *
  linarith [hbounds.2]

/-- What is read by scaling is beside the double that the numeral rounds to. -/
theorem Numeral.quotedAs_of_scale? (hz : scale? n.kept.coefficient n.kept.exponent = some z) :
    n.QuotedAs z (nearest n.decimal.coefficient n.decimal.exponent) := by
  have hround : RoundsTo (nearest n.decimal.coefficient n.decimal.exponent) n.decimal.value :=
    roundsTo_nearest _ _
  have hkept := n.abs_value_sub_kept_le
  have hword := n.kept_le_wordMax
  rcases Nat.eq_zero_or_pos n.kept.coefficient with hzero | hc
  · have hnearest : nearest n.decimal.coefficient n.decimal.exponent = 0 :=
      if_pos (n.kept_eq_zero_iff.mp hzero)
    rw [hzero, scale?_zero] at hz
    obtain rfl := Option.some.inj hz
    rw [hnearest]
    exact ⟨fun _ => rfl, isBeside_self isZero_zero⟩
  · obtain ⟨hgreatest, hnothing⟩ := scale?_outside hc hz
    rcases Int.lt_or_le n.kept.exponent (-616) with hleast | hleast
    · have hnonneg : 0 ≤ n.decimal.value := by
        unfold Decimal.value
        positivity
      have hzero := isRounded_zero_of_small hnonneg hword hleast hkept
      have hnearest := (hround.finite hzero.lt_overflowLimit).unique hzero
      rw [hnothing hleast, hnearest]
      exact ⟨fun _ => rfl, isBeside_self isZero_zero⟩
    · obtain ⟨v, hscales, hread⟩ := exists_scalesTo hc hword hleast hgreatest
      have hz' := hscales.isRounded hz
      constructor
      · intro honce
        have hz'' := honce.isRounded hc hz
        exact (hround.finite hz''.lt_overflowLimit).unique hz''
      · rcases lt_or_ge n.decimal.value overflowLimit with hlimit | hlimit
        · exact .within (isWithin_of_near (hround.finite hlimit) hz' hkept hread)
        · obtain ⟨m, hlast, hm⟩ := last_of_near hlimit hz' hkept hread
          exact .infinite (hround.infinite hlimit) hlast hm

/-! ## Signs and exponents -/

/-- Two doubles stay beside each other when both are given a sign. -/
theorem IsBeside.signed (h : IsBeside y x) (negative : Bool) :
    IsBeside (signed negative y) (signed negative x) := by
  cases negative with
  | false => exact h
  | true =>
    cases h with
    | within h =>
      obtain ⟨negative, m, q, n, r, hy, hx, hnear⟩ := h
      exact .within ⟨!negative, m, q, n, r, ofFloat_neg hy, ofFloat_neg hx, hnear⟩
    | infinite hy hx hm => exact .infinite (ofFloat_neg_infinite hy) (ofFloat_neg hx) hm

/-- A numeral has no more digits than are written. -/
theorem length_toDigits_ofDigits_le {ds : List Digit} (h : 0 < ofDigits ds) :
    (toDigits (ofDigits ds)).length ≤ ds.length := by
  have hpow := (pow_le_of_toDigits h).trans_lt (ofDigits_lt ds)
  have := (Nat.pow_lt_pow_iff_right (by decide : 1 < 10)).mp hpow
  omega

/-- The numeral has no exponent too large to be counted that its whole digits could make up for. It
takes two thousand million digits to have one. -/
def Numeral.IsCountable (n : Numeral) : Prop :=
  ∀ e ∈ n.exponent, exponentMax < ofDigits e.digits → n.whole.length + 330 ≤ exponentMax

/-- A numeral with an exponent too large to be counted is read as zero in both ways, unless its
whole digits make up for the exponent. -/
theorem Numeral.of_uncounted {quantity : Quantity} {e : Exponent}
    (h : n.quantity? = some quantity) (he : n.exponent = some e)
    (hlarge : exponentMax < ofDigits e.digits) (hwhole : n.whole.length + 330 ≤ exponentMax) :
    quantity.toFloat = signed n.negative 0 ∧
      nearest n.decimal.coefficient n.decimal.exponent = 0 := by
  have hscaled : n.scaled? = if n.kept.coefficient ≠ 0 ∧ !e.negative then none
      else some (signed n.negative 0) := by
    unfold scaled?
    rw [he]
    exact if_pos hlarge
  rw [quantity?_eq_scaled (.inr (by rw [he]; exact Option.some_ne_none e)), hscaled] at h
  have hrefused : ¬(n.kept.coefficient ≠ 0 ∧ !e.negative) := by
    intro hrefused
    rw [if_pos hrefused] at h
    cases h
  rw [if_neg hrefused] at h
  obtain rfl := Option.some.inj h
  refine ⟨rfl, ?_⟩
  rcases Nat.eq_zero_or_pos n.decimal.coefficient with hzero | hc
  · exact if_pos hzero
  · have hnegative : e.negative = true := by
      by_contra hnegative
      exact hrefused ⟨mt n.kept_eq_zero_iff.mp hc.ne', by simpa using hnegative⟩
    have hlength : (toDigits n.decimal.coefficient).length ≤ n.whole.length + n.fraction.length :=
      (length_toDigits_ofDigits_le hc).trans_eq List.length_append
    have hexponent : n.decimal.exponent = -(ofDigits e.digits : Int) - n.fraction.length := by
      rw [decimal, he, Option.map_some, Option.getD_some, Exponent.power, if_pos hnegative]
    unfold nearest
    dsimp only
    rw [if_neg hc.ne', if_neg (by omega), if_pos (by omega)]

/-- A numeral is read in quotes beside what it is read as without them. -/
theorem Numeral.quotedAs {quantity : Quantity} (h : n.quantity? = some quantity)
    (hcountable : n.IsCountable) : n.QuotedAs quantity.toFloat n.rounded := by
  unfold rounded
  by_cases hcounted : ∀ e ∈ n.exponent, ofDigits e.digits ≤ exponentMax
  · obtain ⟨z, hz, hread⟩ := of_quantity? h hcounted
    obtain ⟨hexact, hbeside⟩ := quotedAs_of_scale? hz
    rw [hread]
    exact ⟨fun honce => congrArg (signed n.negative) (hexact honce), hbeside.signed n.negative⟩
  · push Not at hcounted
    obtain ⟨e, he, hlarge⟩ := hcounted
    obtain ⟨hread, hnearest⟩ := of_uncounted h he hlarge (hcountable e he hlarge)
    rw [hread, hnearest]
    exact ⟨fun _ => rfl, (isBeside_self isZero_zero).signed n.negative⟩

end MarketFeed.Number
