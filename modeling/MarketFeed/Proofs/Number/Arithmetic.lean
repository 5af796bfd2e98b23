import MarketFeed.Proofs.Number.Bits

/-!
# Calculating with doubles

Products, quotients and whole numbers as doubles are rounded: each is the double whose interval the
exact result lies in, as long as that is not beyond the largest double, and infinite if it is.
-/

namespace MarketFeed.Number

open Float.Model Float.Model.UnpackedFloat

variable {m n : Nat} {q r : Int} {x y : Float} {v w : ℚ}

/-- The double is the one that the number rounds to. -/
def IsRounded (x : Float) (v : ℚ) : Prop :=
  ∃ m q, Shape.ofFloat x = .finite false m q ∧ (Rounding.of m q).Covers v

/-- The double is the one that the number rounds to, or infinite if the number is beyond the largest
double. -/
structure RoundsTo (x : Float) (v : ℚ) : Prop where
  finite : v < overflowLimit → IsRounded x v
  infinite : overflowLimit ≤ v → Shape.ofFloat x = .infinite false

/-- The magnitude of a finite double. -/
def absValue (x : Float) : ℚ :=
  match Shape.ofFloat x with
  | .finite _ m q => m * 2 ^ q
  | _ => 0

/-- The magnitude of a finite double is its significand in units of its last place. -/
theorem absValue_eq {negative : Bool} (h : Shape.ofFloat x = .finite negative m q) :
    absValue x = m * 2 ^ q := by
  rw [absValue, h]

/-- Whether a double is the one that a decimal rounds to is found out by comparing natural
numbers. -/
instance (x : Float) (d : Decimal) : Decidable (IsRounded x d.value) :=
  match hx : Shape.ofFloat x with
  | .finite false m q =>
    decidable_of_iff ((Rounding.of m q).contains d.exponent d.coefficient = true)
      ⟨fun h => ⟨m, q, hx, Rounding.contains_iff.mp h⟩, fun ⟨_, _, h, hcovers⟩ => by
        obtain ⟨-, rfl, rfl⟩ := Shape.finite.inj (hx.symm.trans h)
        exact Rounding.contains_iff.mpr hcovers⟩
  | .finite true _ _ => isFalse fun ⟨_, _, h, _⟩ => nomatch hx.symm.trans h
  | .infinite _ => isFalse fun ⟨_, _, h, _⟩ => nomatch hx.symm.trans h
  | .notANumber => isFalse fun ⟨_, _, h, _⟩ => nomatch hx.symm.trans h

/-- The greatest power of ten that is rounded to a double is not beyond the largest double. -/
theorem ten_pow_lt_overflowLimit : (10 : ℚ) ^ 308 < overflowLimit := by
  have hnat : 10 ^ 308 < (2 ^ 54 - 1) * 2 ^ 970 := by decide +kernel
  have hcast : ((10 ^ 308 : Nat) : ℚ) < ((2 ^ 54 - 1) * 2 ^ 970 : Nat) := Nat.cast_lt.mpr hnat
  rw [Nat.cast_pow, Nat.cast_mul, Nat.cast_pow, Nat.cast_sub (by decide)] at hcast
  push_cast at hcast
  rwa [overflowLimit, zpow_ofNat]

/-- A number of at most 64 digits is not beyond the largest double. -/
theorem lt_overflowLimit_of_le {v : ℚ} (h : v ≤ 10 ^ 64) : v < overflowLimit :=
  h.trans_lt ((pow_le_pow_right₀ (by norm_num) (by decide)).trans_lt ten_pow_lt_overflowLimit)

/-- What is rounded and packed is the double that the number rounds to. -/
theorem roundsTo_pack {accuracy : Accuracy} {e : Int} {t : ℚ} (h : Locates accuracy m t)
    (he : e ≤ targetOf m e) :
    RoundsTo (.ofModel (.pack (roundWithAccuracy Format.binary64 .positive m e accuracy)))
      (t * 2 ^ e) := by
  obtain ⟨u, r, hvalue, hunits, hnearest, hround⟩ := roundWithAccuracy_eq .positive h he
  rw [hround, hvalue]
  constructor
  · exact fun hlimit => ⟨_, _, ofFloat_pack false (hunits.isDouble_carried hnearest hlimit),
      hunits.covers_carried hnearest⟩
  · intro hlimit
    obtain ⟨hsome, hlarge⟩ := hunits.overflow hnearest hlimit
    exact ofFloat_pack_of_large false hsome hlarge

/-- A positive magnitude. -/
theorem magnitude_of_pos (sign : Sign) (hm : 0 < m) : magnitude sign m q = .finite sign m q hm :=
  dif_neg hm.ne'

/-! ## Products -/

/-- The product that the core library calculates is rounded, if one of the factors has a hidden
bit. -/
theorem roundsTo_pack_mul (hm : 2 ^ 52 ≤ m) (hpos : 0 < m) (hn : 0 < n) :
    RoundsTo (.ofModel (.pack (UnpackedFloat.mul Format.binary64 (.finite .positive m q hpos)
      (.finite .positive n r hn)))) (m * 2 ^ q * (n * 2 ^ r)) := by
  have hvalue : (m * 2 ^ q * (n * 2 ^ r) : ℚ) = (m * n : Nat) * 2 ^ (q + r) := by
    rw [zpow_add₀ two_ne_zero]
    push_cast
    ring
  have hdigits : 52 ≤ (m * n).log2 :=
    (Nat.le_log2 (Nat.mul_pos hpos hn).ne').mpr (hm.trans (Nat.le_mul_of_pos_right m hn))
  have htarget : q + r ≤ targetOf (m * n) (q + r) := by
    unfold targetOf totalExponent
    omega
  have hexact : Locates .exact (m * n) (m * n : Nat) := rfl
  rw [hvalue]
  exact roundsTo_pack hexact htarget

/-- A product of a double with a hidden bit and a positive double is rounded. -/
theorem roundsTo_mul (hx : Shape.ofFloat x = .finite false m q)
    (hy : Shape.ofFloat y = .finite false n r) (hm : 2 ^ 52 ≤ m) (hn : 0 < n) :
    RoundsTo (x * y) (m * 2 ^ q * (n * 2 ^ r)) := by
  have hpos : 0 < m := hm.trans_lt' (by decide)
  change RoundsTo (.ofModel
    (.pack (UnpackedFloat.mul Format.binary64 x.toModel.unpack y.toModel.unpack))) _
  rw [unpack_eq_magnitude hx, unpack_eq_magnitude hy, magnitude_of_pos _ hpos,
    magnitude_of_pos _ hn]
  exact roundsTo_pack_mul hm hpos hn

/-! ## Quotients -/

/-- A fraction of a unit is located. -/
theorem locates_accuracyOfFraction {d : Nat} (hd : 0 < d) (a : Nat) :
    Locates (accuracyOfFraction (a % d) d) (a / d) (a / d : ℚ) := by
  have hpos : (0 : ℚ) < d := by exact_mod_cast hd
  have hdivision : (a : ℚ) / d = (a / d : Nat) + (a % d : Nat) / d := by
    rw [eq_comm, ← sub_eq_zero]
    have : ((a / d : Nat) : ℚ) * d + (a % d : Nat) = a := by exact_mod_cast Nat.div_add_mod' a d
    field_simp
    linarith
  have hless : ((a % d : Nat) : ℚ) < d := by exact_mod_cast Nat.mod_lt a hd
  rw [hdivision]
  generalize a / d = whole
  generalize a % d = rest at hless
  unfold accuracyOfFraction
  split
  · rename_i hzero
    simp [hzero, Locates]
  · rename_i hrest
    have hmore : (0 : ℚ) < rest := by exact_mod_cast Nat.pos_of_ne_zero hrest
    have hone : (rest : ℚ) / d < 1 := (div_lt_one hpos).mpr hless
    have hsome : 0 < (rest : ℚ) / d := div_pos hmore hpos
    rcases Nat.lt_trichotomy (2 * rest) d with hlt | heq | hgt
    · rw [Nat.compare_eq_lt.mpr hlt]
      have hhalf : (rest : ℚ) / d < 1 / 2 := by
        rw [div_lt_div_iff₀ hpos two_pos]
        have : (2 * rest : ℚ) < d := by exact_mod_cast hlt
        linarith
      exact ⟨by linarith, by linarith⟩
    · rw [Nat.compare_eq_eq.mpr heq]
      have hhalf : (rest : ℚ) / d = 1 / 2 := by
        rw [← heq]
        push_cast
        field_simp
      exact congrArg ((whole : ℚ) + ·) hhalf
    · rw [Nat.compare_eq_gt.mpr hgt]
      have hhalf : 1 / 2 < (rest : ℚ) / d := by
        rw [div_lt_div_iff₀ two_pos hpos]
        have : (d : ℚ) < 2 * rest := by exact_mod_cast hgt
        linarith
      exact ⟨by linarith, by linarith⟩

/-- The quotient that the core library rounds has enough digits. -/
theorem le_targetOf_divCore (hm : 0 < m) (hn : 0 < n) :
    (divCore Format.binary64 m q n r).2.1 ≤
      targetOf (divCore Format.binary64 m q n r).1 (divCore Format.binary64 m q n r).2.1 := by
  unfold divCore
  dsimp only
  set target := min (q - r) (Format.binary64.targetExponent (totalExponent m q - totalExponent n r))
    with htarget
  have hleft : target ≤ q - r := min_le_left _ _
  have hright : target ≤ max (totalExponent m q - totalExponent n r - 53) (-1074) :=
    min_le_right _ _
  unfold totalExponent at hright
  rcases le_or_gt target (-1074) with hleast | hleast
  · exact hleast.trans (le_max_right _ _)
  · obtain ⟨shift, hshift⟩ := Int.eq_ofNat_of_zero_le (Int.sub_nonneg.mpr hleft)
    have hroom : 53 + n.log2 ≤ m.log2 + shift := by omega
    have hquotient : 2 ^ 52 ≤ m <<< shift / n := by
      rw [Nat.le_div_iff_mul_le hn, Nat.shiftLeft_eq]
      calc 2 ^ 52 * n ≤ 2 ^ 52 * 2 ^ (n.log2 + 1) := Nat.mul_le_mul_left _ Nat.lt_log2_self.le
        _ = 2 ^ (53 + n.log2) := by rw [← pow_add]; congr 1; omega
        _ ≤ 2 ^ (m.log2 + shift) := Nat.pow_le_pow_right two_pos hroom
        _ = 2 ^ m.log2 * 2 ^ shift := pow_add _ _ _
        _ ≤ m * 2 ^ shift := Nat.mul_le_mul_right _ (Nat.log2_self_le hm.ne')
    have hsome : m <<< shift / n ≠ 0 := (hquotient.trans_lt' (by decide)).ne'
    have hdigits : 52 ≤ (m <<< shift / n).log2 := (Nat.le_log2 hsome).mpr hquotient
    rw [hshift, Int.toNat_natCast]
    unfold targetOf totalExponent
    omega

/-- The quotient that the core library calculates is rounded. -/
theorem roundsTo_pack_div (hm : 0 < m) (hn : 0 < n) :
    RoundsTo (.ofModel (.pack (UnpackedFloat.div Format.binary64 (.finite .positive m q hm)
      (.finite .positive n r hn)))) (m * 2 ^ q / (n * 2 ^ r)) := by
  have htarget := le_targetOf_divCore (q := q) (r := r) hm hn
  have hlocates : Locates (divCore Format.binary64 m q n r).2.2 (divCore Format.binary64 m q n r).1
      ((m <<< (q - r - (divCore Format.binary64 m q n r).2.1).toNat : Nat) / n) :=
    locates_accuracyOfFraction hn _
  have hleft : (divCore Format.binary64 m q n r).2.1 ≤ q - r := min_le_left _ _
  change RoundsTo (.ofModel (.pack (roundWithAccuracy Format.binary64 .positive
    (divCore Format.binary64 m q n r).1 (divCore Format.binary64 m q n r).2.1
    (divCore Format.binary64 m q n r).2.2))) _
  generalize divCore Format.binary64 m q n r = quotient at *
  obtain ⟨whole, e, accuracy⟩ := quotient
  dsimp only at *
  obtain ⟨shift, hshift⟩ := Int.eq_ofNat_of_zero_le (Int.sub_nonneg.mpr hleft)
  rw [hshift, Int.toNat_natCast, Nat.shiftLeft_eq] at hlocates
  have hvalue : (m * 2 ^ q / (n * 2 ^ r) : ℚ) = (m * 2 ^ shift : Nat) / n * 2 ^ e := by
    have hr : (2 : ℚ) ^ r ≠ 0 := zpow_ne_zero _ two_ne_zero
    have hq : (2 : ℚ) ^ q = 2 ^ shift * 2 ^ e * 2 ^ r := by
      rw [show q = shift + e + r by omega, zpow_add₀ two_ne_zero, zpow_add₀ two_ne_zero,
        zpow_natCast]
    rw [hq]
    push_cast
    field_simp
  rw [hvalue]
  exact roundsTo_pack hlocates htarget

/-- A quotient of positive doubles is rounded. -/
theorem roundsTo_div (hx : Shape.ofFloat x = .finite false m q)
    (hy : Shape.ofFloat y = .finite false n r) (hm : 0 < m) (hn : 0 < n) :
    RoundsTo (x / y) (m * 2 ^ q / (n * 2 ^ r)) := by
  change RoundsTo (.ofModel
    (.pack (UnpackedFloat.div Format.binary64 x.toModel.unpack y.toModel.unpack))) _
  rw [unpack_eq_magnitude hx, unpack_eq_magnitude hy, magnitude_of_pos _ hm,
    magnitude_of_pos _ hn]
  exact roundsTo_pack_div hm hn

/-! ## Whole numbers -/

/-- A shift to the left lengthens a number by as many digits. -/
theorem log2_shiftLeft {c : Nat} (hc : 0 < c) (shift : Nat) :
    (c <<< shift).log2 = c.log2 + shift := by
  have hpos : 0 < c <<< shift := by
    rw [Nat.shiftLeft_eq]
    positivity
  rw [Nat.log2_eq_iff hpos.ne', Nat.shiftLeft_eq]
  constructor
  · rw [pow_add]
    exact Nat.mul_le_mul_right _ (Nat.log2_self_le hc.ne')
  · rw [Nat.add_right_comm, pow_add]
    exact Nat.mul_lt_mul_of_pos_right Nat.lt_log2_self (by positivity)

/-- A positive word is rounded. -/
theorem isRounded_toFloat {c : Nat} (hc : 0 < c) (hword : c ≤ wordMax) :
    IsRounded c.toUInt64.toFloat c := by
  have hsize : c < 2 ^ 64 := Nat.lt_succ_of_le hword
  have hnat : c.toUInt64.toNat = c := UInt64.toNat_ofNat_of_lt hsize
  set shift := (0 - targetOf c 0).toNat with hshift
  have htoFloat : c.toUInt64.toFloat = .ofModel (.pack
      (roundWithAccuracy Format.binary64 .positive (c <<< shift) (0 - shift) .exact)) := by
    change Float.ofModel
      (.pack (UnpackedFloat.normalize Format.binary64 (c.toUInt64.toNat : Int) 0 .positive)) = _
    rw [hnat, UnpackedFloat.normalize, Int.compare_eq_gt.mpr (Int.natCast_pos.mpr hc)]
    rfl
  have htarget : 0 - (shift : Int) ≤ targetOf (c <<< shift) (0 - shift) := by
    rw [targetOf, totalExponent, log2_shiftLeft hc]
    rw [targetOf, totalExponent] at hshift
    omega
  have hvalue : (c : ℚ) = (c <<< shift : Nat) * 2 ^ (0 - shift : Int) := by
    rw [Nat.shiftLeft_eq, Int.zero_sub, zpow_neg, zpow_natCast]
    push_cast
    field_simp
  have hlimit : (c : ℚ) < overflowLimit := by
    have : c ≤ 10 ^ 64 := hsize.le.trans (Nat.pow_le_pow_left (by decide) 64)
    exact lt_overflowLimit_of_le (by exact_mod_cast this)
  have hexact : Locates .exact (c <<< shift) (c <<< shift : Nat) := rfl
  rw [htoFloat, hvalue]
  exact (roundsTo_pack hexact htarget).finite (hvalue ▸ hlimit)

/-! ## Rounded numbers -/

namespace IsRounded

/-- A number of one or more rounds to a double with a hidden bit. -/
theorem exists_hidden (h : IsRounded x v) (hv : 1 ≤ v) :
    ∃ m q, Shape.ofFloat x = .finite false m q ∧ 2 ^ 52 ≤ m := by
  obtain ⟨m, q, hx, hcovers⟩ := h
  have hdouble := isDouble_of_ofBits hx
  exact ⟨m, q, hx, hdouble.hidden (ne_least_of_one_le hdouble hcovers hv)⟩

/-- The error of a number of one or more. -/
theorem abs_sub_le (h : IsRounded x v) (hv : 1 ≤ v) : |absValue x - v| ≤ v / 2 ^ 53 := by
  obtain ⟨m, q, hx, hcovers⟩ := h
  rw [absValue_eq hx]
  exact abs_sub_le_of_one_le (isDouble_of_ofBits hx) hcovers hv

/-- A number of one or more is not rounded to zero. -/
theorem absValue_pos (h : IsRounded x v) (hv : 1 ≤ v) : 0 < absValue x := by
  have herror := abs_le.mp (h.abs_sub_le hv)
  linarith [herror.1]

/-- The error of any number. -/
theorem abs_sub_le_max (h : IsRounded x v) :
    |absValue x - v| ≤ max (v / 2 ^ 53) (2 ^ (-1074 : Int) / 2) := by
  obtain ⟨m, q, hx, hcovers⟩ := h
  rw [absValue_eq hx]
  exact Number.abs_sub_le_max (isDouble_of_ofBits hx) hcovers

/-- A number that is a double is rounded to itself. -/
theorem absValue_exact {a : Int} (hn : n ≤ 2 ^ 53) (ha : -1074 ≤ a) (h : IsRounded x (n * 2 ^ a)) :
    absValue x = n * 2 ^ a := by
  obtain ⟨m, q, hx, hcovers⟩ := h
  rw [absValue_eq hx]
  exact eq_of_covers_exact (isDouble_of_ofBits hx) hn ha hcovers

/-- The product of two rounded numbers of one or more. -/
theorem mul (hx : IsRounded x v) (hy : IsRounded y w) (hv : 1 ≤ v) (hw : 1 ≤ w) :
    RoundsTo (x * y) (absValue x * absValue y) := by
  obtain ⟨m, q, hx, hm⟩ := hx.exists_hidden hv
  obtain ⟨n, r, hy, hn⟩ := hy.exists_hidden hw
  rw [absValue_eq hx, absValue_eq hy]
  exact roundsTo_mul hx hy hm (hn.trans_lt' (by decide))

/-- The quotient of two rounded numbers that are not rounded to zero. -/
theorem div (hx : IsRounded x v) (hy : IsRounded y w) (hv : 0 < absValue x)
    (hw : 0 < absValue y) : RoundsTo (x / y) (absValue x / absValue y) := by
  obtain ⟨m, q, hx, -⟩ := hx
  obtain ⟨n, r, hy, -⟩ := hy
  have pos {k : Nat} {e : Int} (h : 0 < (k : ℚ) * 2 ^ e) : 0 < k := by
    exact_mod_cast pos_of_mul_pos_left h (zpow_pos two_pos e).le
  rw [absValue_eq hx] at hv ⊢
  rw [absValue_eq hy] at hw ⊢
  exact roundsTo_div hx hy (pos hv) (pos hw)

/-- A number that rounds to a double is not beyond the largest double. -/
theorem lt_overflowLimit (h : IsRounded x v) : v < overflowLimit := by
  obtain ⟨m, q, hx, hcovers⟩ := h
  have hdouble := isDouble_of_ofBits hx
  obtain ⟨t, rfl⟩ := exists_units v q
  by_contra hlimit
  have hnearest := hcovers.isNearest
  have hmost : (m : ℚ) + 1 ≤ 2 ^ 53 := by exact_mod_cast hdouble.significand_lt
  have hleast : 2 ^ 52 * 2 ^ q ≤ overflowLimit := by
    have hunits : (2 : ℚ) ^ q ≤ 2 ^ (971 : Int) :=
      zpow_le_zpow_right₀ one_le_two hdouble.le_greatest
    have hlast : (2 : ℚ) ^ (971 : Int) = 2 * 2 ^ (970 : Int) := zpow_one_add₀ two_ne_zero 970
    have hpos : (0 : ℚ) < 2 ^ (970 : Int) := zpow_pos two_pos _
    rw [overflowLimit]
    rw [hlast] at hunits
    generalize (2 : ℚ) ^ (970 : Int) = unit at *
    linarith only [hunits, hpos]
  have hmany : (2 : ℚ) ^ 52 ≤ t :=
    le_of_mul_le_mul_right (hleast.trans (not_lt.mp hlimit)) (zpow_pos two_pos q)
  have hunits : InUnits t q := ⟨by linarith, by linarith [hnearest.le_high], hdouble.least_le,
    fun _ => hmany⟩
  have hlarge := (hunits.overflow hnearest (not_lt.mp hlimit)).2
  rw [carried, if_neg hdouble.significand_lt.ne] at hlarge
  exact absurd hlarge (by have := hdouble.le_greatest; dsimp only; omega)

/-- A double that a number rounds to is the right one. -/
theorem roundsTo (h : IsRounded x v) : RoundsTo x v :=
  ⟨fun _ => h, fun hlimit => absurd h.lt_overflowLimit hlimit.not_gt⟩

end IsRounded

end MarketFeed.Number
