import MarketFeed.Bytes
import Mathlib.Data.List.Basic

/-!
# Texts come back from their bytes

A character takes one to four bytes, told apart by the first of them, and its code point is at
least the least one that takes so many. So the first character of a byte string that begins with
the form of a character is that character, and a text is what is read from its UTF-8 form.
-/

namespace MarketFeed

/-- No characters have no bytes. -/
@[simp] theorem utf8Chars_nil : utf8Chars [] = [] := rfl

/-- The bytes of the first character stand in front. -/
@[simp] theorem utf8Chars_cons (c : Char) (cs : List Char) :
    utf8Chars (c :: cs) = String.utf8EncodeChar c ++ utf8Chars cs := rfl

/-- The bytes of texts one after the other. -/
@[simp] theorem utf8Chars_append (cs ds : List Char) :
    utf8Chars (cs ++ ds) = utf8Chars cs ++ utf8Chars ds :=
  List.flatMap_append

/-- The character that a code point names. -/
theorem charFrom?_eq_some {least code : Nat} {c : Char} (hcode : code = c.toNat)
    (hleast : least ≤ code) : charFrom? least code = some c := by
  subst hcode
  have hvalid : c.toNat.isValidChar := c.valid
  rw [charFrom?, dif_pos ⟨hleast, hvalid⟩]
  exact congrArg some (Char.ext (UInt32.toNat_inj.mp rfl))

/-- The six low bits of a byte that continues a character. -/
theorem continuation?_ofNat {n : Nat} (h : n < 64) :
    continuation? (UInt8.ofNat (n + 128)) = some n := by
  have hbyte : (UInt8.ofNat (n + 128)).toNat = n + 128 := by
    rw [UInt8.toNat_ofNat']
    omega
  unfold continuation?
  rw [hbyte, if_pos (by simp; omega)]
  simp

/-- A byte string that begins with the form of a character begins with that character. -/
theorem readChar?_encode (c : Char) (rest : Bytes) :
    readChar? (String.utf8EncodeChar c ++ rest) = some (c, rest) := by
  have hvalid : c.val.toNat < 0x110000 := by
    have hchar : c.val.toNat.isValidChar := c.valid
    omega
  unfold String.utf8EncodeChar
  generalize hv : c.val.toNat = v at hvalid
  have hcode : c.toNat = v := hv
  dsimp only
  split_ifs with h1 h2 h3
  · have hbyte : (UInt8.ofNat v).toNat = v := by
      rw [UInt8.toNat_ofNat']
      omega
    have hc : charFrom? 0 v = some c := charFrom?_eq_some hcode.symm (Nat.zero_le v)
    simp [readChar?, hbyte, Nat.lt_succ_of_le h1, hc]
  · have hbyte : (UInt8.ofNat (v / 64 % 32 + 192)).toNat = v / 64 % 32 + 192 := by
      rw [UInt8.toNat_ofNat']
      omega
    have hlow := continuation?_ofNat (Nat.mod_lt v (by decide : 0 < 64))
    have hc : charFrom? 0x80 ((v / 64 % 32 + 192 - 0xC0) * 64 + v % 64) = some c :=
      charFrom?_eq_some (by omega) (by omega)
    have hranges : ¬ v / 64 % 32 + 192 < 0x80 ∧ ¬ v / 64 % 32 + 192 < 0xC0 ∧
        v / 64 % 32 + 192 < 0xE0 := by omega
    simp only [List.cons_append, List.nil_append, readChar?, hbyte, hranges, if_true, if_false,
      hlow, Option.bind_eq_bind, Option.bind_some, hc, Option.pure_def]
  · have hbyte : (UInt8.ofNat (v / 4096 % 16 + 224)).toNat = v / 4096 % 16 + 224 := by
      rw [UInt8.toNat_ofNat']
      omega
    have hmid := continuation?_ofNat (Nat.mod_lt (v / 64) (by decide : 0 < 64))
    have hlow := continuation?_ofNat (Nat.mod_lt v (by decide : 0 < 64))
    have hc : charFrom? 0x800
        (((v / 4096 % 16 + 224 - 0xE0) * 64 + v / 64 % 64) * 64 + v % 64) = some c :=
      charFrom?_eq_some (by omega) (by omega)
    have hranges : ¬ v / 4096 % 16 + 224 < 0x80 ∧ ¬ v / 4096 % 16 + 224 < 0xC0 ∧
        ¬ v / 4096 % 16 + 224 < 0xE0 ∧ v / 4096 % 16 + 224 < 0xF0 := by omega
    simp only [List.cons_append, List.nil_append, readChar?, hbyte, hranges, if_true, if_false,
      hmid, hlow, Option.bind_eq_bind, Option.bind_some, hc, Option.pure_def]
  · have hbyte : (UInt8.ofNat (v / 262144 % 8 + 240)).toNat = v / 262144 % 8 + 240 := by
      rw [UInt8.toNat_ofNat']
      omega
    have hhigh := continuation?_ofNat (Nat.mod_lt (v / 4096) (by decide : 0 < 64))
    have hmid := continuation?_ofNat (Nat.mod_lt (v / 64) (by decide : 0 < 64))
    have hlow := continuation?_ofNat (Nat.mod_lt v (by decide : 0 < 64))
    have hc : charFrom? 0x10000
        ((((v / 262144 % 8 + 240 - 0xF0) * 64 + v / 4096 % 64) * 64 + v / 64 % 64) * 64 +
          v % 64) = some c :=
      charFrom?_eq_some (by omega) (by omega)
    have hranges : ¬ v / 262144 % 8 + 240 < 0x80 ∧ ¬ v / 262144 % 8 + 240 < 0xC0 ∧
        ¬ v / 262144 % 8 + 240 < 0xE0 ∧ ¬ v / 262144 % 8 + 240 < 0xF0 ∧
        v / 262144 % 8 + 240 < 0xF8 := by omega
    simp only [List.cons_append, List.nil_append, readChar?, hbyte, hranges, if_true, if_false,
      hhigh, hmid, hlow, Option.bind_eq_bind, Option.bind_some, hc, Option.pure_def]

/-- The form of a character is not empty. -/
theorem encode_ne_nil (c : Char) : String.utf8EncodeChar c ≠ [] := by
  unfold String.utf8EncodeChar
  dsimp only
  split_ifs <;> simp

/-- Characters come back from their forms, if the budget allows for so many. -/
theorem readChars?_utf8Chars {budget : Nat} {cs : List Char} (h : cs.length ≤ budget) :
    readChars? budget (utf8Chars cs) = some cs := by
  induction cs generalizing budget with
  | nil => cases budget <;> rfl
  | cons c cs ih =>
    obtain ⟨budget, rfl⟩ : ∃ n, budget = n + 1 := ⟨budget - 1, by simp at h; omega⟩
    have hread := readChar?_encode c (utf8Chars cs)
    have hrest := ih (Nat.le_of_succ_le_succ h)
    rw [utf8Chars_cons]
    cases hbytes : String.utf8EncodeChar c with
    | nil => exact absurd hbytes (encode_ne_nil c)
    | cons b bytes =>
      rw [hbytes, List.cons_append] at hread
      simp [readChars?, hread, hrest]

/-- There are at least as many bytes as characters. -/
theorem length_le_utf8Chars (cs : List Char) : cs.length ≤ (utf8Chars cs).length := by
  induction cs with
  | nil => exact Nat.le_refl 0
  | cons c cs ih =>
    have hpos := List.length_pos_iff.mpr (encode_ne_nil c)
    rw [utf8Chars_cons, List.length_append, List.length_cons]
    omega

/-- A text comes back from its UTF-8 form. -/
theorem readUtf8_utf8 (s : String) : readUtf8 (utf8 s) = some s := by
  unfold readUtf8 utf8
  rw [readChars?_utf8Chars (length_le_utf8Chars s.toList), Option.map_some, String.ofList_toList]

/-! ## Characters of one byte -/

/-- An ASCII character has one byte, its code point. -/
theorem encode_of_ascii {c : Char} (h : c.toNat < 0x80) :
    String.utf8EncodeChar c = [UInt8.ofNat c.toNat] := by
  unfold String.utf8EncodeChar
  exact if_pos (Nat.le_of_lt_succ h)

/-- The bytes of any other character are beyond the ASCII characters. -/
theorem le_of_mem_encode {c : Char} (h : 0x80 ≤ c.toNat) {b : UInt8}
    (hb : b ∈ String.utf8EncodeChar c) : 0x80 ≤ b.toNat := by
  have hv : ¬ c.val.toNat ≤ 127 := Nat.not_le.mpr h
  unfold String.utf8EncodeChar at hb
  dsimp only at hb
  rw [if_neg hv] at hb
  split_ifs at hb <;> simp only [List.mem_cons, List.not_mem_nil, or_false] at hb <;>
    rcases hb with rfl | rfl | rfl | rfl <;> rw [UInt8.toNat_ofNat'] <;> omega

end MarketFeed
