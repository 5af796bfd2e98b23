import MarketFeed.Bytes

/-!
# Bytes written with sixty-four characters

Three bytes are written as four characters of six bits each. A last group of one or two bytes
is filled up with zero bits, and with padding to four characters. Reading is strict: the
padding must be there, the bits that fill up must be zero, and nothing else may stand between
the characters.
-/

namespace MarketFeed.Base64

/-- The character for six bits. -/
def sextetChar (n : Nat) : Char :=
  if n < 26 then Char.ofNat (n + 65)
  else if n < 52 then Char.ofNat (n - 26 + 97)
  else if n < 62 then Char.ofNat (n - 52 + 48)
  else if n = 62 then '+'
  else '/'

/-- The six bits of a character. -/
def sextet? (c : Char) : Option Nat :=
  let n := c.toNat
  if 65 ≤ n ∧ n ≤ 90 then some (n - 65)
  else if 97 ≤ n ∧ n ≤ 122 then some (n - 97 + 26)
  else if 48 ≤ n ∧ n ≤ 57 then some (n - 48 + 52)
  else if c = '+' then some 62
  else if c = '/' then some 63
  else none

/-- Write bytes as characters. -/
def encode : Bytes → List Char
  | [] => []
  | [a] =>
    let n := a.toNat * 16
    [sextetChar (n / 64), sextetChar (n % 64), '=', '=']
  | [a, b] =>
    let n := (a.toNat * 256 + b.toNat) * 4
    [sextetChar (n / 4096), sextetChar (n / 64 % 64), sextetChar (n % 64), '=']
  | a :: b :: c :: rest =>
    let n := (a.toNat * 256 + b.toNat) * 256 + c.toNat
    sextetChar (n / 262144) :: sextetChar (n / 4096 % 64) :: sextetChar (n / 64 % 64) ::
      sextetChar (n % 64) :: encode rest

/-- The byte of a last group of one. -/
def decodeOne? (a b : Char) : Option Bytes := do
  let n := (← sextet? a) * 64 + (← sextet? b)
  if n % 16 = 0 then some [UInt8.ofNat (n / 16)] else none

/-- The bytes of a last group of two. -/
def decodeTwo? (a b c : Char) : Option Bytes := do
  let n := ((← sextet? a) * 64 + (← sextet? b)) * 64 + (← sextet? c)
  if n % 4 = 0 then some [UInt8.ofNat (n / 1024), UInt8.ofNat (n / 4 % 256)] else none

/-- The bytes of a full group. -/
def decodeThree? (a b c d : Char) : Option Bytes := do
  let n := (((← sextet? a) * 64 + (← sextet? b)) * 64 + (← sextet? c)) * 64 + (← sextet? d)
  some [UInt8.ofNat (n / 65536), UInt8.ofNat (n / 256 % 256), UInt8.ofNat (n % 256)]

/-- The bytes that characters are written for. -/
def decode? : List Char → Option Bytes
  | [] => some []
  | [a, b, '=', '='] => decodeOne? a b
  | [a, b, c, '='] => decodeTwo? a b c
  | a :: b :: c :: d :: rest => do
    let group ← decodeThree? a b c d
    let bytes ← decode? rest
    pure (group ++ bytes)
  | _ => none

end MarketFeed.Base64
