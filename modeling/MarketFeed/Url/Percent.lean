import MarketFeed.Bytes

/-!
# Percent escapes

In a URL a character may be written as its UTF-8 bytes, each as a percent sign and two
hexadecimal digits. Which characters must be escaped depends on the part of the URL they are
in; controls and all characters beyond ASCII always are.
-/

namespace MarketFeed.Url

/-- Characters that are escaped in every part. -/
def alwaysEscaped (c : Char) : Bool := c.toNat < 0x20 || 0x7F ≤ c.toNat

/-- Characters that are escaped in a fragment. -/
def escapedInFragment (c : Char) : Bool :=
  alwaysEscaped c || [' ', '"', '<', '>', '\x60'].contains c

/-- Characters that are escaped in a path. -/
def escapedInPath (c : Char) : Bool :=
  escapedInFragment c || ['#', '?', '\x7b', '\x7d'].contains c

/-- Characters that are escaped in a single segment, which may hold no separator. A backslash
separates segments only under the special schemes. -/
def escapedInSegment (special : Bool) (c : Char) : Bool :=
  escapedInPath c || c == '/' || c == '%' || (special && c == '\\')

/-- Characters that are escaped in the name and password of a user. -/
def escapedInUser (c : Char) : Bool :=
  escapedInPath c || ['/', ':', ';', '=', '@', '[', '\\', ']', '^', '|'].contains c

/-- Characters that are escaped in a query. -/
def escapedInQuery (special : Bool) (c : Char) : Bool :=
  alwaysEscaped c || [' ', '"', '#', '<', '>'].contains c || (special && c == '\x27')

/-- A hexadecimal digit in upper case. -/
def upperHexDigit (n : Nat) : Char := (Nat.digitChar n).toUpper

/-- The escape of a byte. -/
def escapedByte (b : UInt8) : List Char :=
  ['%', upperHexDigit (b.toNat / 16), upperHexDigit (b.toNat % 16)]

/-- A character as it stands in a part. -/
def escapedChar (escaped : Char → Bool) (c : Char) : List Char :=
  if escaped c then (String.utf8EncodeChar c).flatMap escapedByte else [c]

/-- A text as it stands in a part. -/
def escape (escaped : Char → Bool) (s : List Char) : List Char := s.flatMap (escapedChar escaped)

/-- The value of a hexadecimal digit. -/
def hexValue? (c : Char) : Option Nat :=
  if '0' ≤ c ∧ c ≤ '9' then some (c.toNat - 48)
  else if 'a' ≤ c ∧ c ≤ 'f' then some (c.toNat - 87)
  else if 'A' ≤ c ∧ c ≤ 'F' then some (c.toNat - 55)
  else none

/-- The bytes of a text whose escapes stand for bytes. A percent sign that begins no escape
stands for itself. -/
def unescape : List Char → Bytes
  | [] => []
  | '%' :: a :: b :: rest =>
    match hexValue? a, hexValue? b with
    | some x, some y => UInt8.ofNat (x * 16 + y) :: unescape rest
    | _, _ => String.utf8EncodeChar '%' ++ unescape (a :: b :: rest)
  | c :: rest => String.utf8EncodeChar c ++ unescape rest

end MarketFeed.Url
