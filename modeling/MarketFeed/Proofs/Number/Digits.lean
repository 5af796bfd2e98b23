import MarketFeed.Number.Digits
import MarketFeed.Proofs.Text.Utf8
import Mathlib.Algebra.Group.Nat.Even
import Mathlib.Tactic.Ring

/-!
# Numbers come back from their digits

The digits of a number denote it, and there are no more of them than its size asks for. As bytes
they are read back up to the first byte that is no digit.
-/

namespace MarketFeed.Number

/-! ## What digits denote -/

/-- Digits continued from a number count the number in the place in front of them. -/
theorem foldl_digits (n : Nat) (ds : List Digit) :
    ds.foldl (fun n d => 10 * n + d.val) n = n * 10 ^ ds.length + ofDigits ds := by
  induction ds generalizing n with
  | nil => simp [ofDigits]
  | cons d ds ih =>
    have hfirst : ofDigits (d :: ds) = (10 * 0 + d.val) * 10 ^ ds.length + ofDigits ds := by
      rw [← ih]
      rfl
    rw [List.foldl_cons, ih, hfirst, List.length_cons, pow_succ]
    ring

/-- The first digit counts as often as the place it is in. -/
theorem ofDigits_cons (d : Digit) (ds : List Digit) :
    ofDigits (d :: ds) = d.val * 10 ^ ds.length + ofDigits ds := by
  have h := foldl_digits (10 * 0 + d.val) ds
  simpa [ofDigits] using h

/-- Digits in front count in the places in front. -/
theorem ofDigits_append (ds es : List Digit) :
    ofDigits (ds ++ es) = ofDigits ds * 10 ^ es.length + ofDigits es := by
  unfold ofDigits
  rw [List.foldl_append, foldl_digits]
  rfl

/-- So many digits denote less than the next power of ten. -/
theorem ofDigits_lt (ds : List Digit) : ofDigits ds < 10 ^ ds.length := by
  induction ds with
  | nil => decide
  | cons d ds ih =>
    have hd := d.isLt
    rw [ofDigits_cons, List.length_cons, pow_succ]
    have hle : d.val * 10 ^ ds.length ≤ 9 * 10 ^ ds.length := Nat.mul_le_mul_right _ (by omega)
    omega

/-- Zeros alone denote nothing. -/
theorem ofDigits_zeros (k : Nat) : ofDigits (List.replicate k Digit.zero) = 0 := by
  induction k with
  | zero => rfl
  | succ k ih => rw [List.replicate_succ, ofDigits_cons, ih, Digit.zero, Nat.zero_mul]

/-- Zeros behind digits multiply by ten. -/
theorem ofDigits_append_zeros (ds : List Digit) (k : Nat) :
    ofDigits (ds ++ List.replicate k Digit.zero) = ofDigits ds * 10 ^ k := by
  rw [ofDigits_append, ofDigits_zeros, List.length_replicate, Nat.add_zero]

/-- Zeros in front of digits change nothing. -/
theorem ofDigits_zeros_append (k : Nat) (ds : List Digit) :
    ofDigits (List.replicate k Digit.zero ++ ds) = ofDigits ds := by
  rw [ofDigits_append, ofDigits_zeros, Nat.zero_mul, Nat.zero_add]

/-! ## The digits of a number -/

/-- The digits put in front of others count in the places in front. -/
theorem ofDigits_digitsOnto {fuel n : Nat} (h : n < fuel) (ds : List Digit) :
    ofDigits (digitsOnto fuel n ds) = n * 10 ^ ds.length + ofDigits ds := by
  induction fuel generalizing n ds with
  | zero => omega
  | succ fuel ih =>
    have hdigit : (Fin.ofNat 10 n).val = n % 10 := rfl
    rw [digitsOnto]
    split
    · rw [ofDigits_cons, hdigit, Nat.mod_eq_of_lt ‹_›]
    · rw [ih (by omega), ofDigits_cons, hdigit, List.length_cons, pow_succ]
      have hsplit : n = 10 * (n / 10) + n % 10 := (Nat.div_add_mod n 10).symm
      calc n / 10 * (10 ^ ds.length * 10) + (n % 10 * 10 ^ ds.length + ofDigits ds)
          = (10 * (n / 10) + n % 10) * 10 ^ ds.length + ofDigits ds := by ring
        _ = n * 10 ^ ds.length + ofDigits ds := by rw [← hsplit]

/-- The digits of a number denote it. -/
@[simp] theorem ofDigits_toDigits (n : Nat) : ofDigits (toDigits n) = n := by
  rw [toDigits, ofDigits_digitsOnto (Nat.lt_succ_self n)]
  simp [ofDigits]

/-- The digits of a number in front of others begin with a digit other than zero, unless the
number is zero. -/
theorem digitsOnto_eq_cons {fuel n : Nat} (h : n < fuel) (ds : List Digit) :
    ∃ d rest, digitsOnto fuel n ds = d :: rest ∧ (0 < n → 0 < d.val) := by
  induction fuel generalizing n ds with
  | zero => omega
  | succ fuel ih =>
    rw [digitsOnto]
    split
    · refine ⟨Fin.ofNat 10 n, ds, rfl, fun hpos => ?_⟩
      rwa [show (Fin.ofNat 10 n).val = n from Nat.mod_eq_of_lt ‹_›]
    · obtain ⟨d, rest, heq, hd⟩ := ih (show n / 10 < fuel by omega) (Fin.ofNat 10 n :: ds)
      exact ⟨d, rest, heq, fun _ => hd (by omega)⟩

/-- The digits of a number begin with a digit other than zero, unless the number is zero. -/
theorem toDigits_eq_cons (n : Nat) : ∃ d rest, toDigits n = d :: rest ∧ (0 < n → 0 < d.val) :=
  digitsOnto_eq_cons (Nat.lt_succ_self n) []

/-- A number has digits. -/
theorem toDigits_ne_nil (n : Nat) : toDigits n ≠ [] := by
  obtain ⟨d, rest, heq, -⟩ := toDigits_eq_cons n
  rw [heq]
  exact List.cons_ne_nil d rest

/-- A positive number is at least the power of ten that its first digit counts. -/
theorem pow_le_of_toDigits {n : Nat} (h : 0 < n) : 10 ^ ((toDigits n).length - 1) ≤ n := by
  obtain ⟨d, rest, heq, hd⟩ := toDigits_eq_cons n
  have hvalue : ofDigits (d :: rest) = n := by rw [← heq, ofDigits_toDigits]
  rw [heq, List.length_cons, Nat.add_sub_cancel, ← hvalue, ofDigits_cons]
  have hfirst : 1 * 10 ^ rest.length ≤ d.val * 10 ^ rest.length := Nat.mul_le_mul_right _ (hd h)
  omega

/-- A number is less than the power of ten after its digits. -/
theorem lt_pow_toDigits (n : Nat) : n < 10 ^ (toDigits n).length := by
  simpa using ofDigits_lt (toDigits n)

/-! ## Digits as bytes -/

/-- The byte that shows a digit. -/
def Digit.byte (d : Digit) : UInt8 := UInt8.ofNat (d.val + 48)

/-- The character of a digit has the byte of the digit. -/
theorem encode_toChar (d : Digit) : String.utf8EncodeChar d.toChar = [d.byte] := by
  revert d
  decide

/-- The byte of a digit shows it. -/
@[simp] theorem ofByte?_byte (d : Digit) : Digit.ofByte? d.byte = some d := by
  revert d
  decide

/-- The bytes of a list of digits. -/
theorem utf8Chars_digitChars (ds : List Digit) :
    utf8Chars (digitChars ds) = ds.map Digit.byte := by
  induction ds with
  | nil => rfl
  | cons d ds ih =>
    have hform : digitChars (d :: ds) = d.toChar :: digitChars ds := rfl
    rw [hform, utf8Chars_cons, ih, encode_toChar]
    rfl

/-- A byte string does not begin with a digit. -/
def NoDigit (rest : Bytes) : Prop := ∀ b ∈ rest.head?, Digit.ofByte? b = none

/-- Digits are read up to the first byte that is none. -/
theorem takeDigits_map_byte (ds : List Digit) {rest : Bytes} (hrest : NoDigit rest) :
    takeDigits (ds.map Digit.byte ++ rest) = (ds, rest) := by
  induction ds with
  | nil =>
    cases rest with
    | nil => rfl
    | cons b rest =>
      have hb : Digit.ofByte? b = none := hrest b rfl
      simp [takeDigits, hb]
  | cons d ds ih => simp [takeDigits, ih]

/-! ## Numbers as text -/

/-- A number is told by its digits. -/
theorem toDigits_injective : Function.Injective toDigits := by
  intro n n' h
  rw [← ofDigits_toDigits n, h, ofDigits_toDigits]

/-- A digit is told by its character. -/
theorem Digit.toChar_injective : Function.Injective Digit.toChar := by
  intro d d' h
  revert d d'
  decide

/-- A natural number is told by its characters. -/
theorem natChars_injective : Function.Injective natChars := by
  intro n n' h
  exact toDigits_injective (List.map_injective_iff.mpr Digit.toChar_injective h)

/-- A natural number is written with digits only. -/
theorem not_mem_natChars {c : Char} (hc : ∀ d : Digit, d.toChar ≠ c) (n : Nat) :
    c ∉ natChars n := by
  intro hmem
  obtain ⟨d, -, hd⟩ := List.mem_map.mp hmem
  exact hc d hd

/-- An integer is written with digits and perhaps a sign. -/
theorem not_mem_intChars {c : Char} (hc : ∀ d : Digit, d.toChar ≠ c) (hsign : c ≠ '-') (n : Int) :
    c ∉ intChars n := by
  cases n with
  | ofNat n => exact not_mem_natChars hc n
  | negSucc n =>
    intro hmem
    rcases List.mem_cons.mp hmem with heq | htail
    · exact hsign heq
    · exact not_mem_natChars hc _ htail

/-- An integer is told by its characters. -/
theorem intChars_injective : Function.Injective intChars := by
  have hdiffer (n k : Nat) : natChars n ≠ '-' :: natChars k := by
    intro h
    apply not_mem_natChars (c := '-') (by decide) n
    rw [h]
    exact List.mem_cons_self
  intro n n' h
  cases n with
  | ofNat n =>
    cases n' with
    | ofNat n' => rw [natChars_injective h]
    | negSucc n' => exact absurd h (hdiffer _ _)
  | negSucc n =>
    cases n' with
    | ofNat n' => exact absurd h.symm (hdiffer _ _)
    | negSucc n' =>
      have htail : natChars (n + 1) = natChars (n' + 1) := List.tail_eq_of_cons_eq h
      rw [Nat.succ_injective (natChars_injective htail)]

end MarketFeed.Number
