import MarketFeed.Base64
import MarketFeed.Proofs.Text.Blank

/-!
# Bytes come back from their sixty-four characters

Six bits come back from their character, and the padding is no such character, so the groups are
told apart: a full group does not end with padding, and a last group of one or two bytes does. Taken
together the bits of a group are those of its bytes, with zeros behind them in a last group. None of
the characters is white space.
-/

namespace MarketFeed.Base64

/-! ## Characters for six bits -/

/-- Six bits come back from their character. -/
theorem sextet?_sextetChar {n : Nat} (h : n < 64) : sextet? (sextetChar n) = some n := by
  revert n
  decide

/-- The padding is no character for six bits. -/
theorem sextetChar_ne_pad {n : Nat} (h : n < 64) : sextetChar n ≠ '=' := by
  revert n
  decide

/-- A character for six bits is no white space. -/
theorem isBlankChar_sextetChar {n : Nat} (h : n < 64) :
    Text.isBlankChar (sextetChar n) = false := by
  revert n
  decide

/-! ## Groups -/

/-- A group that does not end with padding is full. -/
theorem decode?_cons {a b c d : Char} (hd : d ≠ '=') (rest : List Char) :
    decode? (a :: b :: c :: d :: rest) =
      (decodeThree? a b c d).bind fun group => (decode? rest).map fun bytes => group ++ bytes := by
  rw [decode?]
  · cases decodeThree? a b c d <;> cases decode? rest <;> rfl
  · exact fun _ hpad => absurd hpad hd
  · exact fun hpad => absurd hpad hd

/-- A group that ends with a single padding is one of two bytes. -/
theorem decode?_two {a b c : Char} (hc : c ≠ '=') :
    decode? [a, b, c, '='] = decodeTwo? a b c := by
  rw [decode?]
  rintro rfl
  exact hc rfl

/-- Three bytes come back from their characters. -/
theorem decodeThree?_encode (a b c : UInt8) :
    let n := (a.toNat * 256 + b.toNat) * 256 + c.toNat
    decodeThree? (sextetChar (n / 262144)) (sextetChar (n / 4096 % 64))
      (sextetChar (n / 64 % 64)) (sextetChar (n % 64)) = some [a, b, c] := by
  intro n
  have ha := a.toNat_lt
  have hb := b.toNat_lt
  have hc := c.toNat_lt
  have hwhole : ((n / 262144 * 64 + n / 4096 % 64) * 64 + n / 64 % 64) * 64 + n % 64 = n := by
    omega
  have hfirst : n / 65536 = a.toNat := by omega
  have hsecond : n / 256 % 256 = b.toNat := by omega
  have hthird : n % 256 = c.toNat := by omega
  have hsextet : n / 262144 < 64 := by omega
  simp [decodeThree?, sextet?_sextetChar hsextet, sextet?_sextetChar (Nat.mod_lt _ _), hwhole,
    hfirst, hsecond, hthird]

/-- Two bytes come back from their characters. -/
theorem decodeTwo?_encode (a b : UInt8) :
    let n := (a.toNat * 256 + b.toNat) * 4
    decodeTwo? (sextetChar (n / 4096)) (sextetChar (n / 64 % 64)) (sextetChar (n % 64)) =
      some [a, b] := by
  intro n
  have ha := a.toNat_lt
  have hb := b.toNat_lt
  have hwhole : (n / 4096 * 64 + n / 64 % 64) * 64 + n % 64 = n := by omega
  have hzeros : n % 4 = 0 := by omega
  have hfirst : n / 1024 = a.toNat := by omega
  have hsecond : n / 4 % 256 = b.toNat := by omega
  have hsextet : n / 4096 < 64 := by omega
  simp [decodeTwo?, sextet?_sextetChar hsextet, sextet?_sextetChar (Nat.mod_lt _ _), hwhole, hzeros,
    hfirst, hsecond]

/-- A single byte comes back from its characters. -/
theorem decodeOne?_encode (a : UInt8) :
    let n := a.toNat * 16
    decodeOne? (sextetChar (n / 64)) (sextetChar (n % 64)) = some [a] := by
  intro n
  have ha := a.toNat_lt
  have hwhole : n / 64 * 64 + n % 64 = n := by omega
  have hzeros : n % 16 = 0 := by omega
  have hfirst : n / 16 = a.toNat := by omega
  have hsextet : n / 64 < 64 := by omega
  simp [decodeOne?, sextet?_sextetChar hsextet, sextet?_sextetChar (Nat.mod_lt _ _), hwhole, hzeros,
    hfirst]

/-! ## Byte strings -/

/-- Bytes come back from the characters they are written as. -/
theorem decode?_encode (bytes : Bytes) : decode? (encode bytes) = some bytes := by
  induction bytes using encode.induct with
  | case1 => rfl
  | case2 a => exact decodeOne?_encode a
  | case3 a b =>
    exact (decode?_two (sextetChar_ne_pad (Nat.mod_lt _ (by decide)))).trans (decodeTwo?_encode a b)
  | case4 a b c rest ih =>
    rw [encode, decode?_cons (sextetChar_ne_pad (Nat.mod_lt _ (by decide))),
      decodeThree?_encode a b c, ih]
    rfl

example : encode [0x66, 0x6F, 0x6F, 0x62] = "Zm9vYg==".toList := by decide

/-- No white space stands among the characters. -/
theorem isBlankChar_of_mem_encode (bytes : Bytes) :
    ∀ c ∈ encode bytes, Text.isBlankChar c = false := by
  have hmod (n : Nat) := isBlankChar_sextetChar (Nat.mod_lt n (by decide : 0 < 64))
  have hpad : Text.isBlankChar '=' = false := by decide
  induction bytes using encode.induct with
  | case1 => nofun
  | case2 a =>
    have hfirst := isBlankChar_sextetChar (n := a.toNat * 16 / 64) (by have := a.toNat_lt; omega)
    simp [encode, hfirst, hmod, hpad]
  | case3 a b =>
    have hfirst := isBlankChar_sextetChar (n := (a.toNat * 256 + b.toNat) * 4 / 4096)
      (by have := a.toNat_lt; have := b.toNat_lt; omega)
    simp [encode, hfirst, hmod, hpad]
  | case4 a b c rest ih =>
    have hfirst := isBlankChar_sextetChar
      (n := ((a.toNat * 256 + b.toNat) * 256 + c.toNat) / 262144)
      (by have := a.toNat_lt; have := b.toNat_lt; have := c.toNat_lt; omega)
    simpa [encode, hfirst, hmod] using ih

end MarketFeed.Base64
