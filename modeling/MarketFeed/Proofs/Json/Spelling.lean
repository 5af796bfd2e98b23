import MarketFeed.Json.Value
import MarketFeed.Proofs.Text.Utf8

/-!
# Strings come back from the way they are spelt

In a string every character may stand for itself, except the quote, the backslash and the control
characters. Those and the slash may be spelt by a character behind a backslash, and any sixteen-bit
unit by its number, with small or capital digits. However a string is written, its spelling is read
back, up to the quote that ends it.

In compact text a character stands for itself if it may. Five of the control characters are spelt
by a letter, the others by number.
-/

namespace MarketFeed.Json

/-- A character that is spelt by number: a control character without a letter of its own. -/
def isNumbered (c : Char) : Bool :=
  c.toNat < 0x20 && !([0x08, 0x09, 0x0A, 0x0C, 0x0D].contains c.toNat)

/-- How a character is spelt. -/
def spellChar (c : Char) : Spelling :=
  if isNumbered c then [.unit c.toNat] else (String.utf8EncodeChar c).map .byte

/-- How a text is spelt. -/
def spell (s : String) : Spelling := s.toList.flatMap spellChar

/-! ## Reading a spelling -/

/-- A byte that is neither a quote nor a backslash nor a control stands for itself. -/
theorem readSpelling?_byte {b : UInt8} (hquote : b ≠ Ascii.quote) (hbackslash : b ≠ Ascii.backslash)
    (hcontrol : ¬ b < Ascii.space) (rest : Bytes) :
    readSpelling? (b :: rest) = (readSpelling? rest).map fun p => (.byte b :: p.1, p.2) := by
  rw [readSpelling?.eq_def]
  split
  · cases ‹_›
  · exact absurd (List.cons.inj ‹_›).1 hquote
  · exact absurd (List.cons.inj ‹_›).1 hbackslash
  · exact absurd (List.cons.inj ‹_›).1 hbackslash
  · rename_i heq
    obtain ⟨rfl, rfl⟩ := List.cons.inj heq
    rw [if_neg (not_or.mpr ⟨hbackslash, hcontrol⟩)]
    cases readSpelling? rest <;> rfl

/-- Bytes that stand for themselves, one after the other. -/
theorem readSpelling?_bytes {bytes : Bytes}
    (hbytes : ∀ b ∈ bytes, b ≠ Ascii.quote ∧ b ≠ Ascii.backslash ∧ ¬ b < Ascii.space)
    (rest : Bytes) :
    readSpelling? (bytes ++ rest) =
      (readSpelling? rest).map fun p => (bytes.map .byte ++ p.1, p.2) := by
  induction bytes with
  | nil =>
    rw [List.nil_append]
    cases readSpelling? rest <;> rfl
  | cons b bytes ih =>
    obtain ⟨hquote, hbackslash, hcontrol⟩ := hbytes b List.mem_cons_self
    rw [List.cons_append, readSpelling?_byte hquote hbackslash hcontrol,
      ih fun b hb => hbytes b (List.mem_cons_of_mem _ hb), Option.map_map]
    rfl

/-- The bytes of a character that is not escaped stand for themselves. -/
theorem plain_of_mem_encode {c : Char} (hquote : c ≠ '"') (hbackslash : c ≠ '\\')
    (hcontrol : ¬ c.toNat < 0x20) :
    ∀ b ∈ String.utf8EncodeChar c, b ≠ Ascii.quote ∧ b ≠ Ascii.backslash ∧ ¬ b < Ascii.space := by
  intro b hb
  by_cases hascii : c.toNat < 0x80
  · rw [encode_of_ascii hascii, List.mem_singleton] at hb
    have hbyte : b.toNat = c.toNat := by
      rw [hb, UInt8.toNat_ofNat']
      omega
    have hne {d : Char} (hne : c ≠ d) : c.toNat ≠ d.toNat := fun h => hne (Char.toNat_inj.mp h)
    refine ⟨fun h => hne hquote ?_, fun h => hne hbackslash ?_, fun h => hcontrol ?_⟩
    · rw [← hbyte, h]
      rfl
    · rw [← hbyte, h]
      rfl
    · rw [← hbyte]
      exact UInt8.lt_iff_toNat_lt.mp h
  · have hbyte := le_of_mem_encode (Nat.not_lt.mp hascii) hb
    refine ⟨?_, ?_, fun h => ?_⟩
    · rintro rfl
      exact absurd hbyte (by decide)
    · rintro rfl
      exact absurd hbyte (by decide)
    · have hless : b.toNat < 0x20 := UInt8.lt_iff_toNat_lt.mp h
      omega

/-- The characters that may stand behind a backslash, with the bytes they stand for. -/
def escapes : List (Char × UInt8) :=
  [('"', Ascii.quote), ('\\', Ascii.backslash), ('/', Ascii.slash), ('b', 0x08), ('f', 0x0C),
    ('n', Ascii.lineFeed), ('r', Ascii.carriageReturn), ('t', Ascii.tab)]

/-- The character is a hexadecimal digit, small or capital. -/
def IsHexDigit (c : Char) (n : Nat) : Prop :=
  n < 16 ∧ (c = Nat.digitChar n ∨ c = (Nat.digitChar n).toUpper)

/-- The small digit of a number is a hexadecimal digit. -/
theorem isHexDigit_digitChar {n : Nat} (h : n < 16) : IsHexDigit (Nat.digitChar n) n :=
  ⟨h, .inl rfl⟩

/-- The ways to write a string between its quotes. -/
inductive Spelling.Written : Spelling → List Char → Prop
  | nil : Written [] []
  /-- A character that stands for itself. -/
  | plain {c : Char} {s : Spelling} {cs : List Char} (hquote : c ≠ '"') (hbackslash : c ≠ '\\')
      (hcontrol : ¬ c.toNat < 0x20) (hrest : Written s cs) :
      Written ((String.utf8EncodeChar c).map .byte ++ s) (c :: cs)
  /-- A byte by the character that stands for it behind a backslash. -/
  | escape {c : Char} {b : UInt8} {s : Spelling} {cs : List Char} (hescape : (c, b) ∈ escapes)
      (hrest : Written s cs) : Written (.byte b :: s) ('\\' :: c :: cs)
  /-- A unit by number. -/
  | number {a b c d : Char} {w x y z : Nat} {s : Spelling} {cs : List Char} (ha : IsHexDigit a w)
      (hb : IsHexDigit b x) (hc : IsHexDigit c y) (hd : IsHexDigit d z) (hrest : Written s cs) :
      Written (.unit (((w * 16 + x) * 16 + y) * 16 + z) :: s)
        ('\\' :: 'u' :: a :: b :: c :: d :: cs)

/-- A hexadecimal digit is a byte with its value. -/
theorem IsHexDigit.exists_byte {c : Char} {n : Nat} (h : IsHexDigit c n) :
    ∃ b, String.utf8EncodeChar c = [b] ∧ hexValue? b = some n := by
  have hall : ∀ n < 16,
      let small := String.utf8EncodeChar (Nat.digitChar n)
      let capital := String.utf8EncodeChar (Nat.digitChar n).toUpper
      (small = [small.headD 0] ∧ hexValue? (small.headD 0) = some n) ∧
        capital = [capital.headD 0] ∧ hexValue? (capital.headD 0) = some n := by decide
  obtain ⟨hn, rfl | rfl⟩ := h
  · exact ⟨_, (hall n hn).1⟩
  · exact ⟨_, (hall n hn).2⟩

/-- A byte is read from the character that stands for it behind a backslash. -/
theorem readSpelling?_escape {c : Char} {b : UInt8} (h : (c, b) ∈ escapes) (rest : Bytes) :
    readSpelling? (utf8Chars ['\\', c] ++ rest) =
      (readSpelling? rest).map fun p => (.byte b :: p.1, p.2) := by
  have hbind : (readSpelling? rest).bind (fun p => some (.byte b :: p.1, p.2)) =
      (readSpelling? rest).map fun p => (.byte b :: p.1, p.2) := Option.map_eq_bind.symm
  rw [← hbind]
  simp only [escapes, List.mem_cons, List.not_mem_nil, or_false, Prod.mk.injEq] at h
  rcases h with ⟨rfl, rfl⟩ | ⟨rfl, rfl⟩ | ⟨rfl, rfl⟩ | ⟨rfl, rfl⟩ | ⟨rfl, rfl⟩ | ⟨rfl, rfl⟩ |
    ⟨rfl, rfl⟩ | ⟨rfl, rfl⟩ <;> rfl

/-- A unit is read from its number. -/
theorem readSpelling?_number {a b c d : Char} {w x y z : Nat} (ha : IsHexDigit a w)
    (hb : IsHexDigit b x) (hc : IsHexDigit c y) (hd : IsHexDigit d z) (rest : Bytes) :
    readSpelling? (utf8Chars ['\\', 'u', a, b, c, d] ++ rest) =
      (readSpelling? rest).map fun p =>
        (.unit (((w * 16 + x) * 16 + y) * 16 + z) :: p.1, p.2) := by
  obtain ⟨a', ha, hw⟩ := ha.exists_byte
  obtain ⟨b', hb, hx⟩ := hb.exists_byte
  obtain ⟨c', hc, hy⟩ := hc.exists_byte
  obtain ⟨d', hd, hz⟩ := hd.exists_byte
  have hunit : hexUnit? a' b' c' d' = some (((w * 16 + x) * 16 + y) * 16 + z) := by
    simp [hexUnit?, hw, hx, hy, hz]
  have hbytes : utf8Chars ['\\', 'u', a, b, c, d] ++ rest =
      Ascii.backslash :: Ascii.lowerU :: a' :: b' :: c' :: d' :: rest := by
    simp only [utf8Chars_cons, utf8Chars_nil, ha, hb, hc, hd]
    rfl
  rw [hbytes]
  change (hexUnit? a' b' c' d').bind _ = _
  rw [hunit]
  change (readSpelling? rest).bind _ = _
  exact Option.map_eq_bind.symm

/-- A spelling is read back, however it is written, up to the quote that ends it. -/
theorem readSpelling?_written {s : Spelling} {cs : List Char} (h : s.Written cs) (rest : Bytes) :
    readSpelling? (utf8Chars cs ++ Ascii.quote :: rest) = some (s, rest) := by
  induction h with
  | nil => rfl
  | plain hquote hbackslash hcontrol _ ih =>
    rw [utf8Chars_cons, List.append_assoc,
      readSpelling?_bytes (plain_of_mem_encode hquote hbackslash hcontrol), ih]
    rfl
  | @escape c b s cs hescape _ ih =>
    change readSpelling? (utf8Chars (['\\', c] ++ cs) ++ _) = _
    rw [utf8Chars_append, List.append_assoc, readSpelling?_escape hescape, ih]
    rfl
  | @number a b c d w x y z s cs ha hb hc hd _ ih =>
    change readSpelling? (utf8Chars (['\\', 'u', a, b, c, d] ++ cs) ++ _) = _
    rw [utf8Chars_append, List.append_assoc, readSpelling?_number ha hb hc hd, ih]
    rfl

/-! ## Compact spellings -/

/-- The characters that are spelt by a letter or a mark behind a backslash. -/
def lettered : List Char := ['"', '\\', '\n', '\r', '\t', '\x08', '\x0c']

/-- Of the other characters, only the control characters are escaped. -/
theorem escapedChar_of_not_lettered {c : Char} (h : c ∉ lettered) :
    escapedChar c = if c.toNat < 0x20 then
      ['\\', 'u', '0', '0', Nat.digitChar (c.toNat / 16), Nat.digitChar (c.toNat % 16)]
      else [c] := by
  simp only [lettered, List.mem_cons, List.not_mem_nil, or_false, not_or] at h
  obtain ⟨hquote, hbackslash, hn, hr, ht, hb, hf⟩ := h
  unfold escapedChar
  split <;> first | contradiction | rfl

/-- Of the other characters, the control characters are spelt by number. -/
theorem isNumbered_of_not_lettered {c : Char} (h : c ∉ lettered) :
    isNumbered c = decide (c.toNat < 0x20) := by
  have hne {d : Char} (hd : d ∈ lettered) : c.toNat ≠ d.toNat := by
    intro heq
    rw [Char.toNat_inj.mp heq] at h
    exact h hd
  have h8 : c.toNat ≠ 0x08 := hne (d := '\x08') (by decide)
  have h9 : c.toNat ≠ 0x09 := hne (d := '\t') (by decide)
  have h10 : c.toNat ≠ 0x0A := hne (d := '\n') (by decide)
  have h12 : c.toNat ≠ 0x0C := hne (d := '\x0c') (by decide)
  have h13 : c.toNat ≠ 0x0D := hne (d := '\r') (by decide)
  simp [isNumbered, h8, h9, h10, h12, h13]

/-- A character may be written as it is escaped. -/
theorem written_escapedChar (c : Char) {s : Spelling} {cs : List Char} (h : s.Written cs) :
    Spelling.Written (spellChar c ++ s) (escapedChar c ++ cs) := by
  by_cases hlettered : c ∈ lettered
  · simp only [lettered, List.mem_cons, List.not_mem_nil, or_false] at hlettered
    rcases hlettered with rfl | rfl | rfl | rfl | rfl | rfl | rfl <;>
      exact .escape (by decide) h
  · have hnumbered := isNumbered_of_not_lettered hlettered
    rw [escapedChar_of_not_lettered hlettered, spellChar, hnumbered]
    by_cases hcontrol : c.toNat < 0x20
    · have hnumber := Spelling.Written.number (isHexDigit_digitChar (by omega : 0 < 16))
        (isHexDigit_digitChar (by omega : 0 < 16))
        (isHexDigit_digitChar (by omega : c.toNat / 16 < 16))
        (isHexDigit_digitChar (Nat.mod_lt c.toNat (by omega : 0 < 16))) h
      rw [show ((0 * 16 + 0) * 16 + c.toNat / 16) * 16 + c.toNat % 16 = c.toNat by omega] at hnumber
      rw [if_pos (decide_eq_true hcontrol), if_pos hcontrol]
      exact hnumber
    · have hquote : c ≠ '"' := fun heq => hlettered (heq ▸ by decide)
      have hbackslash : c ≠ '\\' := fun heq => hlettered (heq ▸ by decide)
      rw [decide_eq_false hcontrol, if_neg hcontrol]
      exact .plain hquote hbackslash hcontrol h

/-- The spelling of a text may be written as the text is escaped. -/
theorem written_spell (s : String) : (spell s).Written (s.toList.flatMap escapedChar) := by
  unfold spell
  induction s.toList with
  | nil => exact .nil
  | cons c cs ih =>
    rw [List.flatMap_cons, List.flatMap_cons]
    exact written_escapedChar c ih

/-! ## What is spelt -/

/-- A number that begins no pair stands for the character it names. -/
theorem bytes?_unit {c : Char} (h : isLeading c.toNat = false) (rest : Spelling) :
    Spelling.bytes? (.unit c.toNat :: rest) =
      rest.bytes?.map fun bytes => String.utf8EncodeChar c ++ bytes := by
  have hc : charFrom? 0 c.toNat = some c := charFrom?_eq_some rfl (Nat.zero_le _)
  rw [Spelling.bytes?.eq_def]
  split
  · cases ‹_›
  · exact absurd (List.cons.inj ‹_›).1 (by simp)
  · rename_i heq
    obtain ⟨hunit, rfl⟩ := List.cons.inj heq
    obtain rfl := TextUnit.unit.inj hunit
    rw [h, hc]
    exact (Option.map_eq_bind).symm
  · rename_i heq
    obtain ⟨hunit, rfl⟩ := List.cons.inj heq
    obtain rfl := TextUnit.unit.inj hunit
    rw [hc]
    exact (Option.map_eq_bind).symm

/-- Bytes are spelt by themselves. -/
theorem bytes?_bytes (bytes : Bytes) (rest : Spelling) :
    Spelling.bytes? (bytes.map .byte ++ rest) = rest.bytes?.map fun more => bytes ++ more := by
  induction bytes with
  | nil => cases h : rest.bytes? <;> simp [h]
  | cons b bytes ih =>
    change (Spelling.bytes? (bytes.map .byte ++ rest)).map _ = _
    rw [ih, Option.map_map]
    rfl

/-- A character that is spelt by number begins no pair. -/
theorem not_isLeading_of_isNumbered {c : Char} (h : isNumbered c = true) :
    isLeading c.toNat = false := by
  have hless : c.toNat < 0x20 := by
    simp only [isNumbered, Bool.and_eq_true, decide_eq_true_eq] at h
    exact h.1
  simp only [isLeading, Bool.and_eq_false_iff, decide_eq_false_iff_not]
  omega

/-- The bytes of the characters that are spelt are those of the text. -/
theorem bytes?_spell (cs : List Char) :
    Spelling.bytes? (cs.flatMap spellChar) = some (utf8Chars cs) := by
  induction cs with
  | nil => rfl
  | cons c cs ih =>
    rw [List.flatMap_cons, spellChar, utf8Chars_cons]
    split
    · rw [List.singleton_append, bytes?_unit (not_isLeading_of_isNumbered ‹_›), ih]
      rfl
    · rw [bytes?_bytes, ih]
      rfl

/-- A text is what its spelling spells. -/
@[simp] theorem text?_spell (s : String) : (spell s).text? = some s := by
  unfold Spelling.text? spell
  rw [bytes?_spell, Option.bind_some]
  exact readUtf8_utf8 s

/-- A text is read from its spelling. -/
@[simp] theorem read_spell (s : String) : (spell s).read = .ok s := by
  rw [Spelling.read, text?_spell]

end MarketFeed.Json
