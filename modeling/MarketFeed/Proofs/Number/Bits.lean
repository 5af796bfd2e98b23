import MarketFeed.Number.Numeral
import MarketFeed.Proofs.Number.Rounding

/-!
# Bit patterns of finite doubles

A double is taken apart in two ways: its bit pattern is split by division, and the core library
unpacks it before it calculates with it. The two agree, and a significand and an exponent of a
double that are packed again have the bit pattern that is split into them. So a finite double is
known from its sign, its significand and its exponent.
-/

namespace MarketFeed.Number

open Float.Model Float.Model.UnpackedFloat

variable {negative : Bool} {m : Nat} {q : Int} {x y : Float}

/-- The sign of a double. -/
def signOf (negative : Bool) : Sign := if negative then .negative else .positive

/-! ## Splitting -/

/-- The fraction of a bit pattern. -/
theorem toNat_unpackMantissa (b : BitVec Format.binary64.numBits) :
    (unpackMantissa b).toNat = b.toNat % 2 ^ 52 := by
  simp [unpackMantissa]

/-- The exponent field of a bit pattern. -/
theorem toNat_unpackExponent (b : BitVec Format.binary64.numBits) :
    (unpackExponent b).toNat = b.toNat / 2 ^ 52 % 2 ^ 11 := by
  simp [unpackExponent, Nat.shiftRight_eq_div_pow]

/-- The sign bit of a bit pattern. -/
theorem toNat_unpackSign (b : BitVec Format.binary64.numBits) :
    (unpackSign b).toNat = b.toNat / 2 ^ 63 % 2 := by
  delta unpackSign
  simp [Nat.shiftRight_eq_div_pow]

/-- The core library unpacks the sign that the bit pattern shows. -/
theorem ofBitVec_unpackSign (b : BitVec Format.binary64.numBits) :
    Sign.ofBitVec (unpackSign b) = signOf (decide (b.toNat / 2 ^ 63 % 2 = 1)) := by
  have hsign := toNat_unpackSign b
  rcases Nat.mod_two_eq_zero_or_one (b.toNat / 2 ^ 63) with hbit | hbit <;> rw [hbit] at hsign ⊢
  · rw [show unpackSign b = 0#1 from BitVec.eq_of_toNat_eq hsign]
    rfl
  · rw [show unpackSign b = 1#1 from BitVec.eq_of_toNat_eq hsign]
    rfl

/-- The last exponent field. -/
theorem unpackExponent_eq_last_iff {b : BitVec Format.binary64.numBits} :
    unpackExponent b = -1#_ ↔ b.toNat / Nat.pow 2 52 % Nat.pow 2 11 = 2047 := by
  rw [← BitVec.toNat_inj, toNat_unpackExponent]
  rfl

/-- The first exponent field. -/
theorem unpackExponent_eq_zero_iff {b : BitVec Format.binary64.numBits} :
    unpackExponent b = 0#_ ↔ b.toNat / Nat.pow 2 52 % Nat.pow 2 11 = 0 := by
  rw [← BitVec.toNat_inj, toNat_unpackExponent]
  rfl

/-- The fraction zero. -/
theorem unpackMantissa_eq_zero_iff {b : BitVec Format.binary64.numBits} :
    unpackMantissa b = 0#_ ↔ b.toNat % Nat.pow 2 52 = 0 := by
  rw [← BitVec.toNat_inj, toNat_unpackMantissa]
  rfl

/-- The core library unpacks an infinite bit pattern as infinite. -/
theorem unpack_infinity_of_ofBits {b : BitVec Format.binary64.numBits}
    (h : Shape.ofBits b.toNat = .infinite negative) :
    UnpackedFloat.unpack Format.binary64 b = .infinity (signOf negative) := by
  unfold Shape.ofBits at h
  unfold UnpackedFloat.unpack
  dsimp only at h ⊢
  split_ifs at h with hfield hfraction
  obtain rfl := Shape.infinite.inj h
  rw [if_pos (unpackExponent_eq_last_iff.mpr hfield),
    if_pos (unpackMantissa_eq_zero_iff.mpr hfraction), ofBitVec_unpackSign]
  rfl

/-- The core library unpacks a finite bit pattern into its sign, its significand and its
exponent. -/
theorem unpack_eq_of_ofBits {b : BitVec Format.binary64.numBits}
    (h : Shape.ofBits b.toNat = .finite negative m q) :
    UnpackedFloat.unpack Format.binary64 b = magnitude (signOf negative) m q := by
  unfold Shape.ofBits at h
  unfold UnpackedFloat.unpack magnitude
  dsimp only at h ⊢
  split_ifs at h with hfield hinfinite hleast
  · obtain ⟨rfl, rfl, rfl⟩ := Shape.finite.inj h
    rw [if_neg (mt unpackExponent_eq_last_iff.mp hfield),
      if_pos (unpackExponent_eq_zero_iff.mpr hleast), ofBitVec_unpackSign]
    by_cases hfraction : b.toNat % Nat.pow 2 52 = 0
    · rw [dif_pos (unpackMantissa_eq_zero_iff.mpr hfraction), dif_pos hfraction]
      rfl
    · rw [dif_neg (mt unpackMantissa_eq_zero_iff.mp hfraction), dif_neg hfraction,
        UnpackedFloat.finite.injEq, toNat_unpackMantissa, unpackExponent_eq_zero_iff.mpr hleast]
      exact ⟨rfl, rfl, rfl⟩
  · obtain ⟨rfl, rfl, rfl⟩ := Shape.finite.inj h
    have hhidden : Nat.pow 2 52 + b.toNat % Nat.pow 2 52 ≠ 0 :=
      (Nat.add_pos_left (by decide) _).ne'
    rw [if_neg (mt unpackExponent_eq_last_iff.mp hfield),
      if_neg (mt unpackExponent_eq_zero_iff.mp hleast), ofBitVec_unpackSign,
      dif_neg hhidden, UnpackedFloat.finite.injEq, toNat_unpackExponent, BitVec.toNat_append,
      ← Nat.shiftLeft_add_eq_or_of_lt (BitVec.isLt _), toNat_unpackMantissa]
    exact ⟨rfl, rfl, rfl⟩

/-- The core library unpacks a finite double into its sign, its significand and its exponent. -/
theorem unpack_eq_magnitude (h : Shape.ofFloat x = .finite negative m q) :
    x.toModel.unpack = magnitude (signOf negative) m q :=
  unpack_eq_of_ofBits h

/-! ## Packing -/

/-- A sign, an exponent field and a fraction side by side. -/
def sideBySide (negative : Bool) (field fraction : Nat) : Nat :=
  negative.toNat * 2 ^ 63 + field * 2 ^ 52 + fraction

/-- The bit pattern of a finite double. Without a hidden bit the exponent field is zero. -/
def bitsOf (negative : Bool) (m : Nat) (q : Int) : Nat :=
  sideBySide negative (if m < 2 ^ 52 then 0 else (q + 1075).toNat) (m % 2 ^ 52)

/-- Parts side by side are split again. -/
theorem split_sideBySide (negative : Bool) {field fraction : Nat} (hfield : field < 2 ^ 11)
    (hfraction : fraction < 2 ^ 52) :
    sideBySide negative field fraction / Nat.pow 2 63 % 2 = negative.toNat ∧
      sideBySide negative field fraction / Nat.pow 2 52 % Nat.pow 2 11 = field ∧
      sideBySide negative field fraction % Nat.pow 2 52 = fraction := by
  have hsign := negative.toNat_le
  unfold sideBySide
  simp only [Nat.pow_eq, Nat.reducePow] at hfield hfraction ⊢
  omega

/-- A sign is known from its bit. -/
theorem decide_toNat_eq_one (b : Bool) : decide (b.toNat = 1) = b := by
  cases b <;> rfl

/-- The bit pattern of a double is split into the double. -/
theorem ofBits_bitsOf (h : IsDouble m q) :
    Shape.ofBits (bitsOf negative m q) = .finite negative m q := by
  obtain ⟨hm, hleast, hgreatest, hhidden⟩ := h
  have hfield : (if m < 2 ^ 52 then 0 else (q + 1075).toNat) < 2 ^ 11 := by split <;> omega
  obtain ⟨hsign, hexponent, hfraction⟩ :=
    split_sideBySide negative hfield (Nat.mod_lt m (by decide))
  unfold Shape.ofBits bitsOf
  dsimp only
  rw [hsign, hexponent, hfraction, decide_toNat_eq_one, if_neg (by split <;> omega)]
  by_cases hsmall : m < 2 ^ 52
  · obtain rfl : q = -1074 := by
      by_contra hq
      exact absurd (hhidden hq) (Nat.not_le.mpr hsmall)
    rw [if_pos hsmall, if_pos rfl, Nat.mod_eq_of_lt hsmall]
  · have hlast : Nat.pow 2 52 + m % 2 ^ 52 = m := by
      simp only [Nat.pow_eq, Nat.reducePow] at hm hsmall ⊢
      omega
    rw [if_neg hsmall, if_neg (by omega), hlast, Shape.finite.injEq]
    exact ⟨rfl, rfl, by omega⟩

/-- A bit pattern that is split into a double is the bit pattern of that double. -/
theorem eq_bitsOf {bits : Nat} (hbits : bits < 2 ^ 64)
    (h : Shape.ofBits bits = .finite negative m q) : bits = bitsOf negative m q := by
  have hsign : (decide (bits / Nat.pow 2 63 % 2 = 1)).toNat = bits / Nat.pow 2 63 % 2 := by
    rcases Nat.mod_two_eq_zero_or_one (bits / Nat.pow 2 63) with hbit | hbit <;> rw [hbit] <;> rfl
  unfold Shape.ofBits at h
  dsimp only at h
  split_ifs at h with hlast hinfinite hfirst
  · obtain ⟨rfl, rfl, rfl⟩ := Shape.finite.inj h
    have hsmall : bits % Nat.pow 2 52 < 2 ^ 52 := Nat.mod_lt _ (by decide)
    rw [bitsOf, sideBySide, hsign, if_pos hsmall]
    simp only [Nat.pow_eq, Nat.reducePow] at hbits hfirst ⊢
    omega
  · obtain ⟨rfl, rfl, rfl⟩ := Shape.finite.inj h
    have hlarge : ¬Nat.pow 2 52 + bits % Nat.pow 2 52 < 2 ^ 52 :=
      Nat.not_lt.mpr (Nat.le_add_right _ _)
    rw [bitsOf, sideBySide, hsign, if_neg hlarge]
    simp only [Nat.pow_eq, Nat.reducePow] at hbits hfirst ⊢
    omega

/-- The core library puts the three parts of a bit pattern side by side. -/
theorem toNat_packComponents (negative : Bool) (field : BitVec 11) (fraction : BitVec 52) :
    (packComponents Format.binary64 (signOf negative) field fraction).toNat =
      sideBySide negative field.toNat fraction.toNat := by
  have hsign : (signOf negative).toBitVec.toNat = negative.toNat := by
    cases negative <;> rfl
  rw [packComponents, BitVec.toNat_append, ← Nat.shiftLeft_add_eq_or_of_lt (BitVec.isLt _),
    BitVec.toNat_append, ← Nat.shiftLeft_add_eq_or_of_lt (BitVec.isLt _), Nat.shiftLeft_eq,
    Nat.shiftLeft_eq, hsign, sideBySide]
  ring

/-- The core library packs a double into its bit pattern. -/
theorem toNat_pack (h : IsDouble m q) :
    (UnpackedFloat.pack Format.binary64 (magnitude (signOf negative) m q)).toNat =
      bitsOf negative m q := by
  obtain ⟨hm, hleast, hgreatest, hhidden⟩ := h
  have hbias : q + Format.binary64.exponentBias + Format.binary64.mantissaBitsWithoutImplicit =
      q + 1075 := Int.add_assoc _ _ _
  rw [bitsOf, magnitude]
  by_cases hzero : m = 0
  · rw [dif_pos hzero, hzero]
    exact toNat_packComponents _ 0 0
  · have hroom : ¬2 ^ Format.binary64.exponentBits ≤ (q + 1075).toNat + 1 := by
      change ¬2 ^ 11 ≤ (q + 1075).toNat + 1
      omega
    rw [dif_neg hzero]
    delta UnpackedFloat.pack
    dsimp only
    rw [hbias, if_neg hroom]
    by_cases hsmall : m < 2 ^ 52
    · have hlog : ¬m.log2 + 1 = Format.binary64.mantissaBits := by
        have := (Nat.log2_lt hzero).mpr hsmall
        change ¬m.log2 + 1 = 53
        omega
      rw [if_neg hlog, if_pos hsmall]
      exact toNat_packComponents _ _ _
    · have hlog : m.log2 + 1 = Format.binary64.mantissaBits := by
        have := (Nat.log2_lt hzero).mpr hm
        have := (Nat.le_log2 hzero).mpr (not_lt.mp hsmall)
        change m.log2 + 1 = 53
        omega
      have hfield : (q + 1075).toNat % 2 ^ 11 = (q + 1075).toNat := Nat.mod_eq_of_lt (by omega)
      rw [if_pos hlog, if_neg hsmall]
      refine (toNat_packComponents _ _ _).trans ?_
      rw [BitVec.toNat_ofNat, BitVec.toNat_ofNat, hfield]

/-- A double that is packed from its sign, its significand and its exponent is split into them. -/
theorem ofFloat_pack (negative : Bool) (h : IsDouble m q) :
    Shape.ofFloat (.ofModel (.pack (magnitude (signOf negative) m q))) = .finite negative m q := by
  change Shape.ofBits
    (UnpackedFloat.pack Format.binary64 (magnitude (signOf negative) m q)).toNat = _
  rw [toNat_pack h, ofBits_bitsOf h]

/-- What is packed as infinite is infinite. -/
theorem ofFloat_pack_infinity (negative : Bool) :
    Shape.ofFloat (.ofModel (.pack (.infinity (signOf negative)))) = .infinite negative := by
  have hbits : (UnpackedFloat.pack Format.binary64 (.infinity (signOf negative))).toNat =
      sideBySide negative 2047 0 :=
    toNat_packComponents negative (-1#11) 0
  obtain ⟨hsign, hexponent, hfraction⟩ :=
    split_sideBySide negative (by decide : 2047 < 2 ^ 11) (by decide : 0 < 2 ^ 52)
  change Shape.ofBits (UnpackedFloat.pack Format.binary64 (.infinity (signOf negative))).toNat = _
  rw [hbits]
  unfold Shape.ofBits
  dsimp only
  rw [hsign, hexponent, hfraction, decide_toNat_eq_one, if_pos rfl, if_pos rfl]

/-- A magnitude with an exponent that no double has is packed as infinite. -/
theorem ofFloat_pack_of_large (negative : Bool) (hm : 0 < m) (hq : 972 ≤ q) :
    Shape.ofFloat (.ofModel (.pack (magnitude (signOf negative) m q))) = .infinite negative := by
  have hroom : 2 ^ Format.binary64.exponentBits ≤
      (q + Format.binary64.exponentBias +
        Format.binary64.mantissaBitsWithoutImplicit).toNat + 1 := by
    change 2 ^ 11 ≤ (q + 1023 + 52).toNat + 1
    omega
  have hpack : UnpackedFloat.pack Format.binary64 (magnitude (signOf negative) m q) =
      UnpackedFloat.pack Format.binary64 (.infinity (signOf negative)) := by
    rw [magnitude, dif_neg hm.ne']
    delta UnpackedFloat.pack
    exact if_pos hroom
  rw [← ofFloat_pack_infinity]
  change Shape.ofBits (UnpackedFloat.pack Format.binary64 _).toNat =
    Shape.ofBits (UnpackedFloat.pack Format.binary64 _).toNat
  rw [hpack]

/-! ## Finite doubles -/

/-- A finite double is known from its sign, its significand and its exponent. -/
theorem eq_of_ofFloat (hx : Shape.ofFloat x = .finite negative m q)
    (hy : Shape.ofFloat y = .finite negative m q) : x = y := by
  have hbits : x.toBits.toNat = y.toBits.toNat :=
    (eq_bitsOf x.toBits.toNat_lt hx).trans (eq_bitsOf y.toBits.toNat_lt hy).symm
  obtain ⟨⟨a, ha⟩⟩ := x
  obtain ⟨⟨b, hb⟩⟩ := y
  obtain rfl : a = b := UInt64.toNat_inj.mp hbits
  rfl

/-- Negation turns the sign around. -/
theorem ofFloat_neg (h : Shape.ofFloat x = .finite negative m q) :
    Shape.ofFloat (-x) = .finite (!negative) m q := by
  have hdouble := isDouble_of_ofBits h
  have hneg : x.toModel.unpack.neg = magnitude (signOf !negative) m q := by
    rw [unpack_eq_magnitude h, magnitude, magnitude]
    by_cases hzero : m = 0
    · rw [dif_pos hzero, dif_pos hzero]
      cases negative <;> rfl
    · rw [dif_neg hzero, dif_neg hzero]
      cases negative <;> rfl
  change Shape.ofFloat (.ofModel (.pack x.toModel.unpack.neg)) = _
  rw [hneg, ofFloat_pack _ hdouble]

/-- The core library unpacks an infinite double as infinite. -/
theorem unpack_infinite (h : Shape.ofFloat x = .infinite negative) :
    x.toModel.unpack = .infinity (signOf negative) :=
  unpack_infinity_of_ofBits h

/-- Negation turns the sign of an infinite double around. -/
theorem ofFloat_neg_infinite (h : Shape.ofFloat x = .infinite negative) :
    Shape.ofFloat (-x) = .infinite (!negative) := by
  have hneg : x.toModel.unpack.neg = .infinity (signOf !negative) := by
    rw [unpack_infinite h]
    cases negative <;> rfl
  change Shape.ofFloat (.ofModel (.pack x.toModel.unpack.neg)) = _
  rw [hneg, ofFloat_pack_infinity]

/-- A magnitude that is given a sign has it. -/
theorem ofFloat_signed (negative : Bool) (h : Shape.ofFloat x = .finite false m q) :
    Shape.ofFloat (signed negative x) = .finite negative m q := by
  cases negative with
  | false => exact h
  | true => exact ofFloat_neg h

end MarketFeed.Number
