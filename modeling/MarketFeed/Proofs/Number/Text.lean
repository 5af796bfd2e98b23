import MarketFeed.Proofs.Number.Layout
import MarketFeed.Proofs.Text.Blank

/-!
# Numerals as numeric texts

The text of a numeral has no white space in it. Read as a numeric text, it shows the double that the
numeral rounds to, with its sign.
-/

namespace MarketFeed.Number

variable {n : Numeral}

/-- The double that a numeral rounds to, with its sign. -/
def Numeral.rounded (n : Numeral) : Float :=
  signed n.negative (nearest n.decimal.coefficient n.decimal.exponent)

/-! ## White space -/

/-- Digits are no white space. -/
theorem isBlankChar_of_mem_digitChars {ds : List Digit} {c : Char} (h : c ∈ digitChars ds) :
    Text.isBlankChar c = false := by
  obtain ⟨d, -, rfl⟩ := List.mem_map.mp h
  clear h
  revert d
  decide

/-- An exponent has no white space in it. -/
theorem ExponentWritten.isBlankChar {exponent : Option Exponent} {cs : List Char}
    (h : ExponentWritten exponent cs) {c : Char} (hc : c ∈ cs) : Text.isBlankChar c = false := by
  cases h with
  | none => cases hc
  | some hletter hsign _ =>
    rcases List.mem_cons.mp hc with rfl | hc
    · rcases hletter with rfl | rfl <;> rfl
    · rcases List.mem_append.mp hc with hsigned | hdigits
      · generalize Exponent.negative _ = negative at hsign
        cases hsign with
        | minus => rw [List.mem_singleton.mp hsigned]; rfl
        | plus => rw [List.mem_singleton.mp hsigned]; rfl
        | absent => cases hsigned
      · exact isBlankChar_of_mem_digitChars hdigits

/-- A fraction has no white space in it. -/
theorem isBlankChar_of_mem_fractionChars {ds : List Digit} {c : Char} (h : c ∈ fractionChars ds) :
    Text.isBlankChar c = false := by
  unfold fractionChars at h
  split at h
  · cases h
  · rcases List.mem_cons.mp h with rfl | hdigits
    · rfl
    · exact isBlankChar_of_mem_digitChars hdigits

/-- A numeral has no white space in it. -/
theorem Numeral.Written.isBlankChar {cs : List Char} (h : n.Written cs) {c : Char} (hc : c ∈ cs) :
    Text.isBlankChar c = false := by
  obtain ⟨-, hexponent⟩ := h
  rcases List.mem_append.mp hc with hsign | hc
  · split at hsign
    · rw [List.mem_singleton.mp hsign]
      rfl
    · cases hsign
  · rcases List.mem_append.mp hc with hwhole | hc
    · exact isBlankChar_of_mem_digitChars hwhole
    · rcases List.mem_append.mp hc with hfraction | hc
      · exact isBlankChar_of_mem_fractionChars hfraction
      · exact hexponent.isBlankChar hc

/-! ## Reading -/

/-- The fraction of a numeral is read from its text. -/
theorem looseFraction_chars (ds : List Digit) {rest : Bytes}
    (hrest : ∀ b ∈ rest.head?, Digit.ofByte? b = none ∧ b ≠ Ascii.dot) :
    looseFraction (utf8Chars (fractionChars ds) ++ rest) = (ds, rest) := by
  unfold fractionChars
  split
  · subst ds
    change looseFraction rest = ([], rest)
    unfold looseFraction
    split
    · exact absurd rfl (hrest _ rfl).2
    · rfl
  · rw [utf8Chars_cons, utf8Chars_digitChars, List.append_assoc]
    exact takeDigits_map_byte ds fun b hb => (hrest b hb).1

/-- The bytes of digits do not begin a word. -/
theorem lowerByte_byte (d : Digit) : lowerByte d.byte ≠ 0x69 ∧ lowerByte d.byte ≠ 0x6E := by
  revert d
  decide

/-- What begins with a digit is no word for a number that is not finite. -/
theorem wordFor?_digit (d : Digit) (rest : Bytes) :
    wordFor? ((d.byte :: rest).map lowerByte) = none := by
  obtain ⟨hinfinite, hnan⟩ := lowerByte_byte d
  unfold wordFor?
  rw [if_neg, if_neg]
  · exact fun h => hnan (List.cons.inj h).1
  · rintro (h | h)
    · exact hinfinite (List.cons.inj h).1
    · exact hinfinite (List.cons.inj h).1

/-- The magnitude of a numeral is read from its text as the double it rounds to. -/
theorem readMagnitude?_written {exponent : List Char} (hwhole : IsPlainWhole n.whole)
    (hexponent : ExponentWritten n.exponent exponent) :
    readMagnitude?
        (utf8Chars (digitChars n.whole ++ (fractionChars n.fraction ++ exponent))) =
      some (nearest n.decimal.coefficient n.decimal.exponent) := by
  obtain ⟨negative, whole, fraction, shift⟩ := n
  dsimp only at hwhole hexponent ⊢
  obtain ⟨d, more, rfl⟩ := hwhole.exists_cons
  have hend : EndsNumeral [] := nofun
  have htail := head?_exponent hexponent hend
  have hreadExponent := readExponentPart?_written hexponent hend
  have hreadFraction := looseFraction_chars fraction htail
  have hreadWhole := takeDigits_map_byte (d :: more)
    (noDigit_fractionChars fraction fun b hb => (htail b hb).1)
  rw [List.append_nil] at hreadExponent hreadFraction hreadWhole
  have hword := wordFor?_digit d
    (more.map Digit.byte ++ (utf8Chars (fractionChars fraction) ++ utf8Chars exponent))
  rw [← List.cons_append, ← List.map_cons] at hword
  unfold readMagnitude?
  rw [utf8Chars_append, utf8Chars_append, utf8Chars_digitChars, hword]
  dsimp only
  rw [hreadWhole]
  dsimp only
  rw [hreadFraction]
  dsimp only
  rw [if_neg (by simp), hreadExponent]
  cases shift <;> rfl

/-- A numeral is read from its text as the double it rounds to. -/
theorem readDouble?_written {cs : List Char} (h : n.Written cs) :
    readDouble? (utf8Chars cs) = some n.rounded := by
  obtain ⟨hwhole, hexponent⟩ := h
  have hread := readMagnitude?_written hwhole hexponent
  obtain ⟨d, more, hfirst⟩ := hwhole.exists_cons
  unfold Numeral.rounded
  cases hsign : n.negative with
  | true =>
    rw [if_pos rfl]
    exact congrArg (Option.map (signed true)) hread
  | false =>
    rw [if_neg Bool.false_ne_true, List.nil_append]
    refine Eq.trans ?_ hread
    rw [utf8Chars_append, utf8Chars_digitChars, hfirst]
    unfold readDouble?
    split
    · exact absurd (List.cons.inj ‹_›).1 d.byte_ne_sign.1
    · exact absurd (List.cons.inj ‹_›).1 d.byte_ne_sign.2
    · rfl

end MarketFeed.Number
