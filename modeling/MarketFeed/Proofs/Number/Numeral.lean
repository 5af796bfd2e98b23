import MarketFeed.Number.Numeral
import MarketFeed.Proofs.Number.Digits

/-!
# Numerals come back from their characters

A numeral is written as its sign, its whole digits, its fraction behind a point and its exponent
behind a letter. The letter may be a small or a capital one, and an exponent that is not negative
need not have a sign. However it is written, the numeral is read back if its whole digits have no
needless leading zero and its exponent has a digit, and if what follows cannot go on with it.

A numeral without fraction and exponent is the integer it shows, if that fits a word of 64 bits.
-/

namespace MarketFeed.Number

/-! ## How a numeral is written -/

/-- An exponent behind its letter, with its sign. -/
def Exponent.chars (e : Exponent) : List Char :=
  'e' :: (if e.negative then '-' else '+') :: digitChars e.digits

/-- The fraction of a numeral behind its point; it has none if there are no digits. -/
def fractionChars (ds : List Digit) : List Char := if ds = [] then [] else '.' :: digitChars ds

/-- The characters of a numeral after its sign. -/
def Numeral.magnitudeChars (n : Numeral) : List Char :=
  digitChars n.whole ++ (fractionChars n.fraction ++ (n.exponent.map Exponent.chars).getD [])

/-- The characters of a numeral. -/
def Numeral.chars (n : Numeral) : List Char :=
  (if n.negative then ['-'] else []) ++ n.magnitudeChars

/-- Digits without a needless leading zero. -/
def IsPlainWhole (ds : List Digit) : Prop :=
  ds = [Digit.zero] ∨ ∃ d rest, ds = d :: rest ∧ 0 < d.val

/-- The digits of a number have no needless leading zero. -/
theorem isPlainWhole_toDigits (n : Nat) : IsPlainWhole (toDigits n) := by
  obtain ⟨d, rest, heq, hd⟩ := toDigits_eq_cons n
  rcases Nat.eq_zero_or_pos n with rfl | hpos
  · exact .inl rfl
  · exact .inr ⟨d, rest, heq, hd hpos⟩

/-- A numeral that can stand in a document. -/
structure Numeral.WellFormed (n : Numeral) : Prop where
  whole : IsPlainWhole n.whole
  exponent : ∀ e ∈ n.exponent, e.digits ≠ []

/-- The ways to write the sign of an exponent, by whether it is negative. -/
inductive SignWritten : Bool → List Char → Prop
  | minus : SignWritten true ['-']
  | plus : SignWritten false ['+']
  | absent : SignWritten false []

/-- The ways to write an exponent, if there is one. -/
inductive ExponentWritten : Option Exponent → List Char → Prop
  | none : ExponentWritten none []
  | some {e : Exponent} {letter : Char} {sign : List Char} (hletter : letter = 'e' ∨ letter = 'E')
      (hsign : SignWritten e.negative sign) (hdigits : e.digits ≠ []) :
      ExponentWritten (some e) (letter :: (sign ++ digitChars e.digits))

/-- The ways to write a numeral in a document. -/
inductive Numeral.Written (n : Numeral) : List Char → Prop
  | intro {exponent : List Char} (hwhole : IsPlainWhole n.whole)
      (hexponent : ExponentWritten n.exponent exponent) :
      Written n ((if n.negative then ['-'] else []) ++
        (digitChars n.whole ++ (fractionChars n.fraction ++ exponent)))

/-- A numeral that can stand in a document may be written with a small letter and all signs. -/
theorem Numeral.WellFormed.written {n : Numeral} (h : n.WellFormed) : n.Written n.chars := by
  refine .intro h.whole ?_
  cases hexponent : n.exponent with
  | none => exact .none
  | some e =>
    have hsign : SignWritten e.negative [if e.negative then '-' else '+'] := by
      cases e.negative with
      | true => exact .minus
      | false => exact .plus
    exact .some (.inl rfl) hsign (h.exponent e hexponent)

/-- What follows a numeral does not go on with it. -/
def EndsNumeral (rest : Bytes) : Prop :=
  ∀ b ∈ rest.head?, Digit.ofByte? b = none ∧ b ≠ Ascii.dot ∧ b ≠ Ascii.lowerE ∧ b ≠ Ascii.upperE

/-- What does not go on with a numeral does not begin with a digit. -/
theorem EndsNumeral.noDigit {rest : Bytes} (h : EndsNumeral rest) : NoDigit rest :=
  fun b hb => (h b hb).1

/-! ## Reading the parts -/

/-- Some digits are read as they are written. -/
theorem someDigits?_map_byte {ds : List Digit} (hds : ds ≠ []) {rest : Bytes}
    (hrest : NoDigit rest) : someDigits? (ds.map Digit.byte ++ rest) = some (ds, rest) := by
  unfold someDigits?
  rw [takeDigits_map_byte ds hrest]
  cases ds with
  | nil => exact absurd rfl hds
  | cons d ds => rfl

/-- A digit is no sign. -/
theorem Digit.byte_ne_sign (d : Digit) : d.byte ≠ Ascii.plus ∧ d.byte ≠ Ascii.minus := by
  revert d
  decide

/-- The digits of an exponent are read with its sign, which may be left out if there is none. -/
theorem readExponent?_written {e : Exponent} {sign : List Char}
    (hsign : SignWritten e.negative sign) (hdigits : e.digits ≠ []) {rest : Bytes}
    (hrest : NoDigit rest) :
    readExponent? (utf8Chars (sign ++ digitChars e.digits) ++ rest) = some (e, rest) := by
  obtain ⟨negative, ds⟩ := e
  have hread := someDigits?_map_byte hdigits hrest
  rw [utf8Chars_append, utf8Chars_digitChars, List.append_assoc]
  cases hsign with
  | minus =>
    change (someDigits? (ds.map Digit.byte ++ rest)).map _ = _
    rw [hread]
    rfl
  | plus =>
    change (someDigits? (ds.map Digit.byte ++ rest)).map _ = _
    rw [hread]
    rfl
  | absent =>
    obtain ⟨d, more, rfl⟩ : ∃ d more, ds = d :: more := List.exists_cons_of_ne_nil hdigits
    rw [utf8Chars_nil, List.nil_append, readExponent?.eq_def]
    split
    · exact absurd (List.cons.inj ‹_›).1 d.byte_ne_sign.1
    · exact absurd (List.cons.inj ‹_›).1 d.byte_ne_sign.2
    · rw [hread]
      rfl

/-- The exponent of a numeral is read back. -/
theorem readExponentPart?_written {exponent : Option Exponent} {cs : List Char}
    (h : ExponentWritten exponent cs) {rest : Bytes} (hrest : EndsNumeral rest) :
    readExponentPart? (utf8Chars cs ++ rest) = some (exponent, rest) := by
  cases h with
  | none =>
    change readExponentPart? rest = some (none, rest)
    unfold readExponentPart?
    split
    · exact absurd rfl (hrest _ rfl).2.2.1
    · exact absurd rfl (hrest _ rfl).2.2.2
    · rfl
  | @some e letter sign hletter hsign hdigits =>
    have hread := readExponent?_written hsign hdigits hrest.noDigit
    have hpart : readExponentPart? (utf8Chars (letter :: (sign ++ digitChars e.digits)) ++ rest) =
        (readExponent? (utf8Chars (sign ++ digitChars e.digits) ++ rest)).map
          fun p => (some p.1, p.2) := by
      rcases hletter with rfl | rfl <;> rfl
    rw [hpart, hread]
    rfl

/-- What an exponent begins with is neither a digit nor a point. -/
theorem head?_exponent {exponent : Option Exponent} {cs : List Char}
    (h : ExponentWritten exponent cs) {rest : Bytes} (hrest : EndsNumeral rest) :
    ∀ b ∈ (utf8Chars cs ++ rest).head?, Digit.ofByte? b = none ∧ b ≠ Ascii.dot := by
  intro b hb
  cases h with
  | none => exact ⟨(hrest b hb).1, (hrest b hb).2.1⟩
  | some hletter =>
    rcases hletter with rfl | rfl
    · obtain rfl : Ascii.lowerE = b := Option.some.inj hb
      decide
    · obtain rfl : Ascii.upperE = b := Option.some.inj hb
      decide

/-- The fraction of a numeral is read back. -/
theorem readFraction?_chars (ds : List Digit) {rest : Bytes}
    (hrest : ∀ b ∈ rest.head?, Digit.ofByte? b = none ∧ b ≠ Ascii.dot) :
    readFraction? (utf8Chars (fractionChars ds) ++ rest) = some (ds, rest) := by
  unfold fractionChars
  split
  · subst ds
    change readFraction? rest = some ([], rest)
    unfold readFraction?
    split
    · exact absurd rfl (hrest _ rfl).2
    · rfl
  · rw [utf8Chars_cons, utf8Chars_digitChars, List.append_assoc]
    exact someDigits?_map_byte ‹_› fun b hb => (hrest b hb).1

/-- What a fraction begins with is no digit. -/
theorem noDigit_fractionChars (ds : List Digit) {rest : Bytes} (hrest : NoDigit rest) :
    NoDigit (utf8Chars (fractionChars ds) ++ rest) := by
  unfold fractionChars
  split
  · exact hrest
  · intro b hb
    obtain rfl : Ascii.dot = b := Option.some.inj hb
    decide

/-- The whole digits of a numeral are read back. -/
theorem readWhole?_chars {ds : List Digit} (hds : IsPlainWhole ds) {rest : Bytes}
    (hrest : NoDigit rest) :
    readWhole? (utf8Chars (digitChars ds) ++ rest) = some (ds, rest) := by
  rw [utf8Chars_digitChars]
  rcases hds with rfl | ⟨d, tail, rfl, hd⟩
  · rfl
  · have hbyte : d.byte ≠ Ascii.zero := by
      revert d
      decide
    rw [← someDigits?_map_byte (List.cons_ne_nil d tail) hrest]
    unfold readWhole?
    split
    · exact absurd (List.cons.inj ‹_›).1 hbyte
    · rfl

/-- Whole digits are digits. -/
theorem IsPlainWhole.exists_cons {ds : List Digit} (h : IsPlainWhole ds) :
    ∃ d rest, ds = d :: rest := by
  rcases h with rfl | ⟨d, rest, rfl, -⟩
  · exact ⟨Digit.zero, [], rfl⟩
  · exact ⟨d, rest, rfl⟩

/-- A numeral begins with a minus or a digit. -/
theorem Numeral.Written.exists_cons {n : Numeral} {cs : List Char} (h : n.Written cs) :
    ∃ b more, utf8Chars cs = b :: more ∧ (b = Ascii.minus ∨ ∃ d : Digit, b = d.byte) := by
  obtain ⟨hwhole, -⟩ := h
  obtain ⟨d, rest, hdigits⟩ := hwhole.exists_cons
  rw [utf8Chars_append]
  split
  · exact ⟨_, _, rfl, .inl rfl⟩
  · rw [utf8Chars_append, utf8Chars_digitChars, hdigits]
    exact ⟨d.byte, _, rfl, .inr ⟨d, rfl⟩⟩

/-- A numeral is read back, however it is written. -/
theorem readNumeral?_written {n : Numeral} {cs : List Char} (h : n.Written cs) {rest : Bytes}
    (hrest : EndsNumeral rest) : readNumeral? (utf8Chars cs ++ rest) = some (n, rest) := by
  obtain ⟨negative, whole, fraction, exponent⟩ := n
  obtain @⟨cs, hwhole, hexponent⟩ := h
  obtain ⟨d, more, hfirst⟩ : ∃ d more, whole = d :: more := hwhole.exists_cons
  have htail := head?_exponent hexponent hrest
  have hreadExponent := readExponentPart?_written hexponent hrest
  have hreadFraction := readFraction?_chars fraction htail
  have hreadWhole := readWhole?_chars hwhole
    (noDigit_fractionChars fraction fun b hb => (htail b hb).1)
  have hunsigned : readUnsigned? negative
      (utf8Chars (digitChars whole ++ (fractionChars fraction ++ cs)) ++ rest) =
        some (⟨negative, whole, fraction, exponent⟩, rest) := by
    simp only [utf8Chars_append, List.append_assoc, readUnsigned?, hreadWhole, hreadFraction,
      hreadExponent, Option.bind_eq_bind, Option.bind_some, Option.pure_def]
  cases negative with
  | true => exact hunsigned
  | false =>
    change readNumeral? (utf8Chars (digitChars whole ++ (fractionChars fraction ++ cs)) ++ rest) = _
    rw [← hunsigned, utf8Chars_append, utf8Chars_digitChars, hfirst]
    unfold readNumeral?
    split
    · exact absurd (List.cons.inj ‹_›).1 d.byte_ne_sign.2
    · rfl

/-! ## Integers -/

/-- The numeral of an integer. -/
def Numeral.ofInt (i : Int) : Numeral := ⟨decide (i < 0), toDigits i.natAbs, [], none⟩

/-- The numeral of an integer can stand in a document. -/
theorem Numeral.wellFormed_ofInt (i : Int) : (Numeral.ofInt i).WellFormed :=
  ⟨isPlainWhole_toDigits _, nofun⟩

/-- An integer is written as its numeral. -/
theorem Numeral.chars_ofInt (i : Int) : (Numeral.ofInt i).chars = intChars i := by
  have hmagnitude (n : Nat) (negative : Bool) :
      Numeral.magnitudeChars ⟨negative, toDigits n, [], none⟩ = natChars n :=
    List.append_nil _
  cases i with
  | ofNat n => exact hmagnitude n false
  | negSucc n =>
    have hsign : decide (Int.negSucc n < 0) = true := decide_eq_true (Int.negSucc_lt_zero n)
    rw [Numeral.chars, Numeral.ofInt, hsign]
    exact congrArg ('-' :: ·) (hmagnitude (n + 1) true)

/-- The integer fits a word of 64 bits, signed or not. -/
def FitsWord (i : Int) : Prop := -(Nat.pow 2 63 : Int) ≤ i ∧ i ≤ wordMax

/-- An integer that fits a word comes back from its numeral. -/
theorem Numeral.quantity?_ofInt {i : Int} (h : FitsWord i) :
    (Numeral.ofInt i).quantity? = some (.integer i) := by
  obtain ⟨hlow, hhigh⟩ := h
  have hinteger : (Numeral.ofInt i).integer? = some i := by
    simp only [Numeral.ofInt, Numeral.integer?, ofDigits_toDigits, ne_eq, not_true_eq_false,
      or_self, if_false, decide_eq_true_eq]
    split
    · rw [if_pos ⟨by omega, by omega⟩]
      congr 1
      omega
    · rw [if_pos (by omega)]
      congr 1
      omega
  rw [Numeral.quantity?, hinteger]

/-- An integer that was read fits a word. -/
theorem Numeral.fitsWord_of_quantity? {n : Numeral} {i : Int}
    (h : n.quantity? = some (.integer i)) : FitsWord i := by
  unfold Numeral.quantity? at h
  split at h
  · obtain rfl := Quantity.integer.inj (Option.some.inj h)
    rename_i hinteger
    unfold Numeral.integer? at hinteger
    simp only at hinteger
    split_ifs at hinteger with hparts hnegative hrange hrange
    · obtain rfl := Option.some.inj hinteger
      exact ⟨by omega, by omega⟩
    · obtain rfl := Option.some.inj hinteger
      exact ⟨by omega, by omega⟩
  · obtain ⟨x, -, hx⟩ := Option.map_eq_some_iff.mp h
    cases hx

end MarketFeed.Number
