/-!
# Byte strings

Messages arrive as byte strings that need not be text. A byte string is a list, so that
readers recurse on it; a text becomes one through UTF-8, and comes back from one only if the
bytes are the UTF-8 form of some text: overlong forms, surrogates and code points beyond the
last plane are refused.
-/

namespace MarketFeed

/-- A byte string. -/
abbrev Bytes := List UInt8

/-! The bytes that carry meaning in the formats read here, by the name of their character. -/

namespace Ascii

@[match_pattern] abbrev tab : UInt8 := 0x09
@[match_pattern] abbrev lineFeed : UInt8 := 0x0A
@[match_pattern] abbrev carriageReturn : UInt8 := 0x0D
@[match_pattern] abbrev space : UInt8 := 0x20
@[match_pattern] abbrev quote : UInt8 := 0x22
@[match_pattern] abbrev plus : UInt8 := 0x2B
@[match_pattern] abbrev comma : UInt8 := 0x2C
@[match_pattern] abbrev minus : UInt8 := 0x2D
@[match_pattern] abbrev dot : UInt8 := 0x2E
@[match_pattern] abbrev slash : UInt8 := 0x2F
@[match_pattern] abbrev zero : UInt8 := 0x30
@[match_pattern] abbrev colon : UInt8 := 0x3A
@[match_pattern] abbrev equals : UInt8 := 0x3D
@[match_pattern] abbrev upperE : UInt8 := 0x45
@[match_pattern] abbrev openBracket : UInt8 := 0x5B
@[match_pattern] abbrev backslash : UInt8 := 0x5C
@[match_pattern] abbrev closeBracket : UInt8 := 0x5D
@[match_pattern] abbrev lowerB : UInt8 := 0x62
@[match_pattern] abbrev lowerE : UInt8 := 0x65
@[match_pattern] abbrev lowerF : UInt8 := 0x66
@[match_pattern] abbrev lowerN : UInt8 := 0x6E
@[match_pattern] abbrev lowerR : UInt8 := 0x72
@[match_pattern] abbrev lowerT : UInt8 := 0x74
@[match_pattern] abbrev lowerU : UInt8 := 0x75
@[match_pattern] abbrev openBrace : UInt8 := 0x7B
@[match_pattern] abbrev closeBrace : UInt8 := 0x7D

end Ascii

/-- The UTF-8 form of a list of characters. -/
def utf8Chars (s : List Char) : Bytes := s.flatMap String.utf8EncodeChar

/-- The UTF-8 form of a text. -/
def utf8 (s : String) : Bytes := utf8Chars s.toList

/-- A byte that continues a character, as its six low bits. -/
def continuation? (b : UInt8) : Option Nat :=
  if 0x80 ≤ b.toNat && b.toNat ≤ 0xBF then some (b.toNat - 0x80) else none

/-- The character a code point names, if the point is the least value that its number of
bytes may carry or more. -/
def charFrom? (least code : Nat) : Option Char :=
  if h : least ≤ code ∧ code.isValidChar then some (Char.ofNatAux code h.2) else none

/-- Read the first character of a byte string. -/
def readChar? : Bytes → Option (Char × Bytes)
  | [] => none
  | a :: rest =>
    let n := a.toNat
    if n < 0x80 then (charFrom? 0 n).map fun c => (c, rest)
    else if n < 0xC0 then none
    else if n < 0xE0 then
      match rest with
      | b :: rest => do
        let x ← continuation? b
        let c ← charFrom? 0x80 ((n - 0xC0) * 64 + x)
        pure (c, rest)
      | _ => none
    else if n < 0xF0 then
      match rest with
      | b :: c :: rest => do
        let x ← continuation? b
        let y ← continuation? c
        let char ← charFrom? 0x800 (((n - 0xE0) * 64 + x) * 64 + y)
        pure (char, rest)
      | _ => none
    else if n < 0xF8 then
      match rest with
      | b :: c :: d :: rest => do
        let x ← continuation? b
        let y ← continuation? c
        let z ← continuation? d
        let char ← charFrom? 0x10000 ((((n - 0xF0) * 64 + x) * 64 + y) * 64 + z)
        pure (char, rest)
      | _ => none
    else none

/-- Read characters until the byte string is used up, at most as many as the budget. -/
def readChars? : Nat → Bytes → Option (List Char)
  | _, [] => some []
  | 0, _ :: _ => none
  | budget + 1, bytes => do
    let (c, rest) ← readChar? bytes
    let cs ← readChars? budget rest
    pure (c :: cs)

/-- The text whose UTF-8 form the byte string is. A character takes at least one byte, so
the length of the byte string is budget enough. -/
def readUtf8 (bytes : Bytes) : Option String :=
  (readChars? bytes.length bytes).map String.ofList

end MarketFeed
