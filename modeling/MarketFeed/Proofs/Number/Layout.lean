import MarketFeed.Proofs.Number.Numeral
import MarketFeed.Proofs.Number.Shortest

/-!
# The numerals of doubles

In a document a double is written as a numeral that is no integer: it has a fraction, or an
exponent, or both. The digits of the numeral are those of the shortest decimal, filled up with
zeros where the point asks for them, and so few that all of them are kept when the numeral is read.
-/

namespace MarketFeed.Number

/-! ## What a numeral denotes -/

/-- The power of ten that an exponent gives. -/
def Exponent.power (e : Exponent) : Int :=
  if e.negative then -(ofDigits e.digits : Int) else ofDigits e.digits

/-- The magnitude a numeral denotes: all its digits, and the power of ten they count. -/
def Numeral.decimal (n : Numeral) : Decimal where
  coefficient := ofDigits (n.whole ++ n.fraction)
  exponent := (n.exponent.map Exponent.power).getD 0 - n.fraction.length

/-- A digit after a count begins a new count. -/
theorem count_cons (v : Nat) (d : Digit) (ds : List Digit) :
    v * 10 ^ (d :: ds).length + ofDigits (d :: ds) =
      (10 * v + d.val) * 10 ^ ds.length + ofDigits ds := by
  rw [ofDigits_cons, List.length_cons, pow_succ]
  ring

/-- Digits after a count do not make it smaller. -/
theorem le_count (v : Nat) (ds : List Digit) : v ≤ v * 10 ^ ds.length + ofDigits ds :=
  (Nat.le_mul_of_pos_right v (Nat.pow_pos (by decide))).trans (Nat.le_add_right _ _)

/-- Whole digits that fit a word are all kept. -/
theorem addWhole_eq {ds : List Digit} {v : Nat} (h : v * 10 ^ ds.length + ofDigits ds ≤ wordMax) :
    Significand.addWhole ⟨v, 0⟩ ds = ⟨v * 10 ^ ds.length + ofDigits ds, 0⟩ := by
  induction ds generalizing v with
  | nil => simp [Significand.addWhole, ofDigits]
  | cons d ds ih =>
    rw [count_cons] at h ⊢
    rw [Significand.addWhole, if_pos ⟨rfl, (le_count _ ds).trans h⟩, ih h]

/-- Fraction digits that fit a word are all kept. -/
theorem addFraction_eq {ds : List Digit} {v : Nat} {p : Int}
    (h : v * 10 ^ ds.length + ofDigits ds ≤ wordMax) :
    Significand.addFraction ⟨v, p⟩ ds = ⟨v * 10 ^ ds.length + ofDigits ds, p - ds.length⟩ := by
  induction ds generalizing v p with
  | nil => simp [Significand.addFraction, ofDigits]
  | cons d ds ih =>
    rw [count_cons] at h ⊢
    rw [Significand.addFraction, if_pos ((le_count _ ds).trans h), ih h, List.length_cons]
    dsimp only
    congr 1
    omega

/-- The magnitude that a document keeps of a numeral: the digits that fit a word, and the power of
ten they count. -/
def Numeral.kept (n : Numeral) : Decimal where
  coefficient := n.significand.value
  exponent := n.significand.power + (n.exponent.map Exponent.power).getD 0

/-- A numeral whose exponent can be counted is read by scaling what is kept of it. -/
theorem Numeral.scaled?_eq_kept {n : Numeral}
    (h : ∀ e ∈ n.exponent, ofDigits e.digits ≤ exponentMax) :
    n.scaled? = (scale? n.kept.coefficient n.kept.exponent).map (signed n.negative) := by
  unfold scaled? kept
  cases hexponent : n.exponent with
  | none => simp only [Option.map_none, Option.getD_none, Int.add_zero]
  | some e =>
    have hpower : n.significand.power + e.power =
        (if e.negative then n.significand.power - ofDigits e.digits
          else n.significand.power + ofDigits e.digits) := by
      unfold Exponent.power
      split <;> omega
    dsimp only
    rw [if_neg (Nat.not_lt.mpr (h e hexponent)), Option.map_some, Option.getD_some, hpower]

/-- If all digits of a numeral fit a word, all of them are kept. -/
theorem Numeral.kept_eq {n : Numeral} (h : n.decimal.coefficient ≤ wordMax) :
    n.kept = n.decimal := by
  have hsum : n.decimal.coefficient = ofDigits n.whole * 10 ^ n.fraction.length +
      ofDigits n.fraction := ofDigits_append _ _
  have hwhole : ofDigits n.whole ≤ wordMax := (le_count _ n.fraction).trans (hsum ▸ h)
  have hadd : Significand.addWhole ⟨0, 0⟩ n.whole = ⟨ofDigits n.whole, 0⟩ := by
    simpa using addWhole_eq (v := 0) (by simpa using hwhole)
  have hsignificand : n.significand = ⟨n.decimal.coefficient, -n.fraction.length⟩ := by
    rw [significand, hadd, addFraction_eq (hsum ▸ h), hsum, Int.zero_sub]
  rw [kept, hsignificand]
  exact congrArg (Decimal.mk _) (Int.add_comm _ _)

/-- A numeral whose digits fit a word and whose exponent can be counted is read by scaling what it
denotes. -/
theorem Numeral.scaled?_eq {n : Numeral} (h : n.decimal.coefficient ≤ wordMax)
    (hexponent : ∀ e ∈ n.exponent, ofDigits e.digits ≤ exponentMax) :
    n.scaled? = (scale? n.decimal.coefficient n.decimal.exponent).map (signed n.negative) := by
  rw [scaled?_eq_kept hexponent, kept_eq h]

/-- A numeral with a fraction or an exponent is no integer. -/
theorem Numeral.quantity?_eq_scaled {n : Numeral} (h : n.fraction ≠ [] ∨ n.exponent ≠ none) :
    n.quantity? = n.scaled?.map .double := by
  have hinteger : n.integer? = none := if_pos h
  rw [quantity?, hinteger]

/-! ## The layout of documents -/

/-- The exponent that gives a power of ten. -/
def Exponent.ofPower (power : Int) : Exponent := ⟨decide (power < 0), toDigits power.natAbs⟩

/-- The power of ten comes back. -/
@[simp] theorem Exponent.power_ofPower (power : Int) : (ofPower power).power = power := by
  simp only [ofPower, Exponent.power, ofDigits_toDigits, decide_eq_true_eq]
  split <;> omega

/-- Digits with the point in its place, as a numeral. -/
def plainNumeral (negative : Bool) (digits : List Digit) (power : Int) : Numeral :=
  if power < 0 then
    ⟨negative, [Digit.zero], List.replicate (-power - 1).toNat Digit.zero ++ digits, none⟩
  else
    let whole := power.toNat + 1
    if digits.length ≤ whole then
      ⟨negative, digits ++ List.replicate (whole - digits.length) Digit.zero, [Digit.zero], none⟩
    else ⟨negative, digits.take whole, digits.drop whole, none⟩

/-- Digits with the point after the first one, and the power of ten, as a numeral. -/
def exponentNumeral (negative : Bool) (digits : List Digit) (power : Int) : Numeral :=
  ⟨negative, digits.take 1, digits.drop 1, some (.ofPower power)⟩

/-- A positive decimal as a numeral of a document. -/
def Decimal.numeral (negative : Bool) (d : Decimal) : Numeral :=
  let digits := toDigits d.coefficient
  let power := d.exponent + digits.length - 1
  if Layout.document.isPlain power then plainNumeral negative digits power
  else exponentNumeral negative digits power

/-- A finite double as a numeral of a document. -/
def finiteNumeral (negative : Bool) (m : Nat) (q : Int) : Numeral :=
  if m = 0 then plainNumeral negative [Digit.zero] 0 else (shortest m q).numeral negative

/-- The numeral of a double; for one that is not finite there is none, and zero stands in its
place. -/
def Numeral.ofFloat (x : Float) : Numeral :=
  match Shape.ofFloat x with
  | .finite negative m q => finiteNumeral negative m q
  | _ => .ofInt 0

/-! ### Characters -/

/-- Zeros in front of digits as characters. -/
theorem digitChars_zeros_append (k : Nat) (ds : List Digit) :
    digitChars (List.replicate k Digit.zero ++ ds) = List.replicate k '0' ++ digitChars ds := by
  simp only [digitChars, List.map_append, List.map_replicate]
  rfl

/-- Zeros behind digits as characters. -/
theorem digitChars_append_zeros (k : Nat) (ds : List Digit) :
    digitChars (ds ++ List.replicate k Digit.zero) = digitChars ds ++ List.replicate k '0' := by
  simp only [digitChars, List.map_append, List.map_replicate]
  rfl

/-- A fraction that is there is written behind its point. -/
theorem fractionChars_of_ne_nil {ds : List Digit} (h : ds ≠ []) :
    fractionChars ds = '.' :: digitChars ds := if_neg h

variable {negative : Bool} {digits : List Digit} {power : Int}

/-- The plain layout writes the plain numeral. -/
theorem magnitudeChars_plainNumeral (hdigits : digits ≠ []) :
    (plainNumeral negative digits power).magnitudeChars =
      Layout.document.plainChars digits power := by
  have hlength : (digitChars digits).length = digits.length := List.length_map _
  unfold plainNumeral Layout.plainChars
  dsimp only
  rw [hlength]
  split_ifs with hpower hreach hwhole
  · rw [Numeral.magnitudeChars, fractionChars_of_ne_nil (by simp [hdigits])]
    simp only [Option.map_none, Option.getD_none, List.append_nil, digitChars_zeros_append]
    rfl
  · rw [Numeral.magnitudeChars, fractionChars_of_ne_nil (List.cons_ne_nil _ _)]
    simp only [Option.map_none, Option.getD_none, List.append_nil, digitChars_append_zeros]
    rfl
  · exact absurd rfl hwhole
  · have hrest : digits.drop (power.toNat + 1) ≠ [] := by
      rw [Ne, List.drop_eq_nil_iff]
      exact hreach
    rw [Numeral.magnitudeChars, fractionChars_of_ne_nil hrest]
    simp [digitChars]

/-- The other layout writes the numeral with an exponent. -/
theorem magnitudeChars_exponentNumeral :
    (exponentNumeral negative digits power).magnitudeChars = exponentChars digits power := by
  have hexponent : (Exponent.ofPower power).chars =
      'e' :: (if power < 0 then intChars power else '+' :: intChars power) := by
    simp only [Exponent.chars, Exponent.ofPower, decide_eq_true_eq]
    cases power with
    | ofNat n => rfl
    | negSucc n =>
      rw [if_pos (Int.negSucc_lt_zero n), if_pos (Int.negSucc_lt_zero n)]
      rfl
  have hfraction : fractionChars (digits.drop 1) =
      if (digitChars digits).length ≤ 1 then [] else '.' :: (digitChars digits).drop 1 := by
    have hlength : (digitChars digits).length = digits.length := List.length_map _
    rw [fractionChars, hlength]
    simp only [List.drop_eq_nil_iff, digitChars, List.map_drop]
  simp only [exponentNumeral, Numeral.magnitudeChars, exponentChars, hfraction, hexponent,
    Option.map_some, Option.getD_some, List.append_assoc]
  simp [digitChars]

/-- A positive decimal is written as its numeral. -/
theorem Decimal.magnitudeChars_numeral (d : Decimal) :
    (d.numeral negative).magnitudeChars = Layout.document.decimalChars d := by
  unfold Decimal.numeral Layout.decimalChars
  dsimp only
  split
  · exact magnitudeChars_plainNumeral (toDigits_ne_nil _)
  · exact magnitudeChars_exponentNumeral

/-- The sign of a decimal is the sign of its numeral. -/
theorem Decimal.negative_numeral (d : Decimal) : (d.numeral negative).negative = negative := by
  unfold Decimal.numeral plainNumeral exponentNumeral
  dsimp only
  split_ifs <;> rfl

/-- A finite double is written as its numeral. -/
theorem chars_finiteNumeral (m : Nat) (q : Int) :
    (finiteNumeral negative m q).chars = Layout.document.finiteChars negative m q := by
  unfold finiteNumeral Layout.finiteChars Numeral.chars
  split
  · rfl
  · rw [Decimal.negative_numeral, Decimal.magnitudeChars_numeral]

/-! ### What is read back -/

/-- The numeral of a positive decimal can stand in a document and is no integer. -/
theorem Decimal.wellFormed_numeral {d : Decimal} (hd : 0 < d.coefficient) :
    (d.numeral negative).WellFormed ∧
      ((d.numeral negative).fraction ≠ [] ∨ (d.numeral negative).exponent ≠ none) := by
  obtain ⟨first, rest, hdigits, hfirst⟩ := toDigits_eq_cons d.coefficient
  have hlead {more : List Digit} : IsPlainWhole (first :: more) :=
    .inr ⟨first, more, rfl, hfirst hd⟩
  unfold Decimal.numeral plainNumeral exponentNumeral
  rw [hdigits]
  dsimp only
  split_ifs with hplain hsmall hreach
  · exact ⟨⟨.inl rfl, nofun⟩, .inl (by simp)⟩
  · exact ⟨⟨hlead, nofun⟩, .inl (List.cons_ne_nil _ _)⟩
  · refine ⟨⟨hlead, nofun⟩, .inl ?_⟩
    rw [Ne, List.drop_eq_nil_iff]
    exact hreach
  · refine ⟨⟨hlead, fun e he => ?_⟩, .inr (Option.some_ne_none _)⟩
    obtain rfl := Option.some.inj he
    exact toDigits_ne_nil _

/-- The digits of the numeral of a positive decimal are those of the decimal, and it counts the
same power of ten; but a whole number that is written without an exponent is filled up to the
point and has a zero after it. -/
theorem Decimal.decimal_numeral (negative : Bool) (d : Decimal) :
    (d.numeral negative).decimal = d ∨
      (0 ≤ d.exponent ∧ d.exponent + (toDigits d.coefficient).length ≤ 16 ∧
        (d.numeral negative).decimal = ⟨d.coefficient * 10 ^ (d.exponent.toNat + 1), -1⟩) := by
  have hlength : 0 < (toDigits d.coefficient).length := List.length_pos_iff.mpr (toDigits_ne_nil _)
  obtain ⟨coefficient, k⟩ := d
  dsimp only at hlength ⊢
  unfold Decimal.numeral plainNumeral exponentNumeral Numeral.decimal
  dsimp only
  split_ifs with hplain hsmall hreach
  · -- The point is in front of all digits.
    refine .inl ?_
    have hzeros (zeros : Nat) :
        ofDigits ([Digit.zero] ++ (List.replicate zeros Digit.zero ++ toDigits coefficient)) =
          coefficient :=
      (ofDigits_zeros_append 1 _).trans (by rw [ofDigits_zeros_append, ofDigits_toDigits])
    simp only [hzeros, List.length_append, List.length_replicate, Option.map_none,
      Option.getD_none, Decimal.mk.injEq, true_and]
    omega
  · -- The point is behind all digits.
    have hgreatest : k + (toDigits coefficient).length - 1 ≤ 15 := by
      simpa [Layout.isPlain, Layout.document] using (Bool.and_eq_true_iff.mp hplain).2
    have hfill : (k + (toDigits coefficient).length - 1).toNat + 1 -
        (toDigits coefficient).length = k.toNat := by omega
    refine .inr ⟨by omega, by omega, ?_⟩
    have hzeros : toDigits coefficient ++ List.replicate k.toNat Digit.zero ++ [Digit.zero] =
        toDigits coefficient ++ List.replicate (k.toNat + 1) Digit.zero := by
      rw [List.append_assoc, ← List.replicate_succ']
    rw [hfill, hzeros, ofDigits_append_zeros, ofDigits_toDigits]
    rfl
  · -- The point is among the digits.
    refine .inl ?_
    simp only [List.take_append_drop, ofDigits_toDigits, List.length_drop, Option.map_none,
      Option.getD_none, Decimal.mk.injEq, true_and]
    omega
  · refine .inl ?_
    simp only [List.take_append_drop, ofDigits_toDigits, List.length_drop, Option.map_some,
      Option.getD_some, Exponent.power_ofPower, Decimal.mk.injEq, true_and]
    omega

/-- The numeral of a positive decimal denotes it. -/
theorem Decimal.value_decimal_numeral (d : Decimal) :
    (d.numeral negative).decimal.value = d.value := by
  rcases Decimal.decimal_numeral negative d with h | ⟨hexponent, -, h⟩
  · rw [h]
  · obtain ⟨k, hk⟩ := Int.eq_ofNat_of_zero_le hexponent
    rw [h, Decimal.value, Decimal.value, hk, Int.toNat_natCast, zpow_natCast, zpow_neg_one]
    push_cast
    rw [pow_succ]
    ring

/-- The digits of the numeral of a decimal of at most eighteen digits fit a word. -/
theorem Decimal.coefficient_numeral_lt (negative : Bool) {d : Decimal}
    (hd : d.coefficient < 10 ^ 18) : (d.numeral negative).decimal.coefficient < 10 ^ 18 := by
  rcases Decimal.decimal_numeral negative d with h | ⟨hexponent, hlength, h⟩
  · rwa [h]
  · rw [h]
    calc d.coefficient * 10 ^ (d.exponent.toNat + 1)
        < 10 ^ (toDigits d.coefficient).length * 10 ^ (d.exponent.toNat + 1) :=
          Nat.mul_lt_mul_of_pos_right (lt_pow_toDigits _) (Nat.pow_pos (by decide))
      _ = 10 ^ ((toDigits d.coefficient).length + (d.exponent.toNat + 1)) := (pow_add _ _ _).symm
      _ ≤ 10 ^ 18 := Nat.pow_le_pow_right (by decide) (by omega)

/-- A number of at most eighteen digits has at most eighteen digits. -/
theorem length_toDigits_le {n : Nat} (h : n < 10 ^ 18) : (toDigits n).length ≤ 18 := by
  rcases Nat.eq_zero_or_pos n with rfl | hpos
  · decide
  · have hpow := (pow_le_of_toDigits hpos).trans_lt h
    have hlength := (Nat.pow_lt_pow_iff_right (by decide : 1 < 10)).mp hpow
    omega

/-- The exponent of the numeral of a double can be counted. -/
theorem Decimal.exponent_numeral_le {d : Decimal} (hd : d.coefficient < 10 ^ 18)
    (hleast : -340 ≤ d.exponent) (hgreatest : d.exponent ≤ 309) :
    ∀ e ∈ (d.numeral negative).exponent, ofDigits e.digits ≤ exponentMax := by
  have hlength := length_toDigits_le hd
  have hmax : exponentMax = 2147483647 := rfl
  intro e he
  unfold Decimal.numeral plainNumeral exponentNumeral at he
  dsimp only at he
  split_ifs at he
  · cases he
  · cases he
  · cases he
  · obtain rfl := Option.some.inj he
    simp only [Exponent.ofPower, ofDigits_toDigits]
    omega

/-! ## The numeral of a number -/

/-- The number can be written: a double is finite. -/
def Quantity.IsFinite : Quantity → Prop
  | .integer _ => True
  | .double x => isFinite x = true

/-- The numeral that a number is written as. -/
def Quantity.numeral : Quantity → Numeral
  | .integer i => .ofInt i
  | .double x => .ofFloat x

/-- A number is written as its numeral. -/
theorem Quantity.chars_numeral {q : Quantity} (h : q.IsFinite) : q.numeral.chars = q.chars := by
  cases q with
  | integer i => exact Numeral.chars_ofInt i
  | double x =>
    change isFinite x = true at h
    change (Numeral.ofFloat x).chars = Layout.document.chars x
    unfold isFinite at h
    unfold Numeral.ofFloat Layout.chars
    cases hx : Shape.ofFloat x with
    | finite negative m q => exact chars_finiteNumeral m q
    | _ => simp [hx] at h

/-- The numeral of a number can stand in a document. -/
theorem Quantity.wellFormed_numeral (q : Quantity) : q.numeral.WellFormed := by
  cases q with
  | integer i => exact Numeral.wellFormed_ofInt i
  | double x =>
    change (Numeral.ofFloat x).WellFormed
    unfold Numeral.ofFloat
    split
    · unfold finiteNumeral
      split
      · exact ⟨.inl rfl, nofun⟩
      · have hdouble := isDouble_of_ofBits ‹Shape.ofFloat x = _›
        have hpositive := shortest_coefficient_pos hdouble (Nat.pos_of_ne_zero ‹_›)
        exact (Decimal.wellFormed_numeral hpositive).1
    · exact Numeral.wellFormed_ofInt 0

/-- The numeral of a finite double is read by scaling what it denotes. -/
theorem Numeral.quantity?_ofFloat {x : Float} {m : Nat} {q : Int}
    (hx : Shape.ofFloat x = .finite negative m q) :
    (Numeral.ofFloat x).quantity? =
      ((scale? (Numeral.ofFloat x).decimal.coefficient (Numeral.ofFloat x).decimal.exponent).map
        (signed negative)).map .double := by
  have hdouble := isDouble_of_ofBits hx
  have hnumeral : Numeral.ofFloat x = finiteNumeral negative m q := by
    unfold Numeral.ofFloat
    rw [hx]
  rw [hnumeral]
  unfold finiteNumeral
  split
  · rfl
  · have hm := Nat.pos_of_ne_zero ‹_›
    obtain ⟨-, hleast, hgreatest, -⟩ := shortest_search hdouble hm
    have hlt := shortest_coefficient_lt hdouble hm
    have hword := (Decimal.coefficient_numeral_lt negative hlt).le.trans
      (by decide : 10 ^ 18 ≤ wordMax)
    have hpositive := shortest_coefficient_pos hdouble hm
    rw [Numeral.quantity?_eq_scaled (Decimal.wellFormed_numeral hpositive).2,
      Numeral.scaled?_eq hword (Decimal.exponent_numeral_le hlt hleast hgreatest),
      Decimal.negative_numeral]

end MarketFeed.Number
