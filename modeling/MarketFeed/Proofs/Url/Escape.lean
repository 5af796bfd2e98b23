import MarketFeed.Proofs.Text.Utf8
import MarketFeed.Url.Path

/-!
# Escaped texts

An escape gives its byte back, and a character that is not escaped stands for itself, so the
bytes of a text are read back from its escaped form, whatever is escaped, as long as the percent
sign is. Besides the characters that need no escape there are only percent signs and digits in
it, so a segment holds nothing that would end it.
-/

namespace MarketFeed.Url

open Text

/-! ## Reading escapes back -/

/-- The digits of an escape have the values that they were written for. -/
theorem hexValue?_upperHexDigit : ∀ n < 16, hexValue? (upperHexDigit n) = some n := by
  decide

/-- An escape stands for its byte. -/
theorem unescape_escapedByte (b : UInt8) (rest : List Char) :
    unescape (escapedByte b ++ rest) = b :: unescape rest := by
  have hlt : b.toNat < 256 := b.toNat_lt
  have hhigh := hexValue?_upperHexDigit (b.toNat / 16) (by omega)
  have hlow := hexValue?_upperHexDigit (b.toNat % 16) (by omega)
  have hbyte : UInt8.ofNat (b.toNat / 16 * 16 + b.toNat % 16) = b := by
    rw [Nat.div_add_mod', UInt8.ofNat_toNat]
  simp only [escapedByte, List.cons_append, List.nil_append, unescape, hhigh, hlow, hbyte]

/-- Escapes stand for their bytes. -/
theorem unescape_escapedBytes (bytes : Bytes) (rest : List Char) :
    unescape (bytes.flatMap escapedByte ++ rest) = bytes ++ unescape rest := by
  induction bytes with
  | nil => rfl
  | cons b bytes ih =>
    rw [List.flatMap_cons, List.append_assoc, unescape_escapedByte, ih, List.cons_append]

/-- A character that is no percent sign stands for itself. -/
theorem unescape_cons {c : Char} (hc : c ≠ '%') (rest : List Char) :
    unescape (c :: rest) = String.utf8EncodeChar c ++ unescape rest := by
  rw [unescape]
  rintro a b after hpercent
  exact absurd hpercent hc

variable {escaped : Char → Bool}

/-- A text is read back from its escaped form, if percent signs are escaped. -/
theorem unescape_escape (hpercent : escaped '%' = true) (s : List Char) :
    unescape (escape escaped s) = utf8Chars s := by
  induction s with
  | nil => rfl
  | cons c rest ih =>
    rw [escape] at ih ⊢
    rw [List.flatMap_cons, escapedChar, utf8Chars_cons, ← ih]
    split
    · exact unescape_escapedBytes _ _
    · rename_i hplain
      refine unescape_cons ?_ _
      rintro rfl
      exact hplain hpercent

/-- Texts with the same bytes are the same. -/
theorem utf8Chars_injective : Function.Injective utf8Chars := by
  intro s t h
  have hs := readChars?_utf8Chars (Nat.le_max_left s.length t.length)
  have ht := readChars?_utf8Chars (Nat.le_max_right s.length t.length)
  rw [h] at hs
  exact Option.some.inj (hs.symm.trans ht)

/-- Texts with the same escaped form are the same. -/
theorem escape_injective (hpercent : escaped '%' = true) :
    Function.Injective (escape escaped) := by
  intro s t h
  apply utf8Chars_injective
  rw [← unescape_escape hpercent s, h, unescape_escape hpercent t]

/-! ## What an escaped text holds -/

/-- A character of an escaped text is not to be escaped, or it is a part of an escape. -/
theorem mem_escape {s : List Char} {c : Char} (h : c ∈ escape escaped s) :
    escaped c = false ∨ c = '%' ∨ ∃ n < 16, c = upperHexDigit n := by
  obtain ⟨d, -, hd⟩ := List.mem_flatMap.mp h
  rw [escapedChar] at hd
  split at hd
  · obtain ⟨b, -, hb⟩ := List.mem_flatMap.mp hd
    have hlt : b.toNat < 256 := b.toNat_lt
    simp only [escapedByte, List.mem_cons, List.not_mem_nil, or_false] at hb
    rcases hb with hpercent | hhigh | hlow
    · exact .inr (.inl hpercent)
    · exact .inr (.inr ⟨_, by omega, hhigh⟩)
    · exact .inr (.inr ⟨_, by omega, hlow⟩)
  · rename_i hplain
    obtain rfl := List.mem_singleton.mp hd
    exact .inl (Bool.not_eq_true _ ▸ hplain)

/-- A percent sign is escaped in a segment. -/
theorem percent_escaped (special : Bool) : escapedInSegment special '%' = true := by
  cases special <;> rfl

/-- A character ends a segment: it separates it from the next one, or begins a query or a
fragment. -/
def endsSegment (special : Bool) (c : Char) : Bool := separates special c || c == '?' || c == '#'

/-- What ends a segment is escaped in it. -/
theorem escaped_of_endsSegment {special : Bool} {c : Char} (h : endsSegment special c = true) :
    escapedInSegment special c = true := by
  simp only [endsSegment, separates, Bool.or_eq_true, Bool.and_eq_true, beq_iff_eq] at h
  rcases h with ((rfl | ⟨rfl, rfl⟩) | rfl) | rfl
  · simp [escapedInSegment]
  · simp [escapedInSegment]
  · simp [escapedInSegment, escapedInPath]
  · simp [escapedInSegment, escapedInPath]

/-- No digit of an escape ends a segment. -/
theorem endsSegment_upperHexDigit (special : Bool) :
    ∀ n < 16, endsSegment special (upperHexDigit n) = false := by
  cases special <;> decide

/-- Nothing in an escaped segment ends it. -/
theorem endsSegment_of_mem_escape {special : Bool} {s : List Char} {c : Char}
    (h : c ∈ escape (escapedInSegment special) s) : endsSegment special c = false := by
  rcases mem_escape h with hplain | rfl | ⟨n, hn, rfl⟩
  · by_contra hends
    rw [escaped_of_endsSegment (Bool.not_eq_false _ ▸ hends)] at hplain
    exact Bool.noConfusion hplain
  · cases special <;> rfl
  · exact endsSegment_upperHexDigit special n hn

/-! ## Segments of dots -/

/-- An escaped text is none of the forms that another text can be written in. -/
theorem any_form_escape {s t : List Char} {forms : List String} (hpercent : escaped '%' = true)
    (hforms : ∀ form ∈ forms, unescape form.toList = utf8Chars t) (h : s ≠ t) :
    (forms.any fun form => form.toList = escape escaped s) = false := by
  by_contra hany
  obtain ⟨form, hform, hsame⟩ := List.any_eq_true.mp (Bool.not_eq_false _ ▸ hany)
  have hread := hforms form hform
  rw [of_decide_eq_true hsame, unescape_escape hpercent] at hread
  exact h (utf8Chars_injective hread)

/-- An escaped segment stands for the place it is at only if it is one of a dot. -/
theorem isDot_escape {special : Bool} {s : List Char} (h : s ≠ ['.']) :
    isDot (escape (escapedInSegment special) s) = false :=
  any_form_escape (percent_escaped special) (by decide) h

/-- An escaped segment stands for the place above only if it is one of two dots. -/
theorem isDoubleDot_escape {special : Bool} {s : List Char} (h : s ≠ ['.', '.']) :
    isDoubleDot (escape (escapedInSegment special) s) = false :=
  any_form_escape (percent_escaped special) (by decide) h

end MarketFeed.Url
