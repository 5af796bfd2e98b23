import MarketFeed.Number.Word
import MarketFeed.Proofs.Number.Digits

/-!
# Numbers in words come back

A number that fits the width of a setting is read back from its decimal text.
-/

namespace MarketFeed.Number

/-- A digit is no sign. -/
theorem Digit.byte_ne_plus (d : Digit) : d.byte ≠ Ascii.plus := by
  revert d
  decide

/-- The bytes of the text of a number are those of its digits. -/
theorem utf8_natText (n : Nat) : utf8 (natText n) = (toDigits n).map Digit.byte := by
  rw [utf8, natText, String.toList_ofList, natChars, utf8Chars_digitChars]

/-- Digits are read as the number that they denote. -/
theorem readDigitsBelow?_toDigits {limit n : Nat} (h : n < limit) :
    readDigitsBelow? limit ((toDigits n).map Digit.byte) = some n := by
  have hdigits : takeDigits ((toDigits n).map Digit.byte) = (toDigits n, []) := by
    simpa using takeDigits_map_byte (toDigits n) (show NoDigit [] from nofun)
  obtain ⟨d, rest, hcons, -⟩ := toDigits_eq_cons n
  have hvalue : ofDigits (d :: rest) = n := by rw [← hcons, ofDigits_toDigits]
  rw [readDigitsBelow?, hdigits, hcons]
  simp [hvalue, h]

/-- A number below a limit is read back from its text. -/
theorem readBelow?_natText {limit n : Nat} (h : n < limit) :
    readBelow? limit (natText n) = some n := by
  have hread := readDigitsBelow?_toDigits h
  obtain ⟨d, rest, hcons, -⟩ := toDigits_eq_cons n
  rw [readBelow?, utf8_natText]
  rw [hcons, List.map_cons] at hread ⊢
  split
  · rename_i hplus
    exact absurd (List.cons.inj hplus).1 d.byte_ne_plus
  · exact hread

/-- A number of 32 bits is read back from its text. -/
theorem readUInt32?_natText (n : UInt32) : readUInt32? (natText n.toNat) = some n := by
  rw [readUInt32?, readBelow?_natText n.toNat_lt]
  simp

end MarketFeed.Number
