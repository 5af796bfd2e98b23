import MarketFeed.Number.Numeral

/-!
# The tokens of a document

A document is cut into marks, words, numerals and strings, with white space between them.
Whatever cannot begin or finish a token is junk: it ends the cutting, so that everything
before it can still be looked at in order.

A string is kept as it is spelt. Its bytes need not be valid text, and its escapes by number
need not pair up: whether they do is asked only where the string is used.
-/

namespace MarketFeed.Json

open MarketFeed.Number

/-- One element of a string as it is spelt: a byte, or a sixteen-bit unit given by number. -/
inductive TextUnit
  | byte (b : UInt8)
  | unit (n : Nat)
  deriving DecidableEq, Repr

/-- A string as it is spelt between its quotes. -/
abbrev Spelling := List TextUnit

/-- The tokens. -/
inductive Token
  | openBrace
  | closeBrace
  | openBracket
  | closeBracket
  | comma
  | colon
  | null
  | bool (b : Bool)
  | numeral (n : Numeral)
  | string (s : Spelling)
  | junk
  deriving DecidableEq, Repr

/-- White space between tokens. -/
def isGap (b : UInt8) : Bool :=
  b = Ascii.space || b = Ascii.lineFeed || b = Ascii.carriageReturn || b = Ascii.tab

/-- The value of a hexadecimal digit. -/
def hexValue? (b : UInt8) : Option Nat :=
  let n := b.toNat
  if 0x30 ≤ n ∧ n ≤ 0x39 then some (n - 0x30)
  else if 0x41 ≤ n ∧ n ≤ 0x46 then some (n - 0x41 + 10)
  else if 0x61 ≤ n ∧ n ≤ 0x66 then some (n - 0x61 + 10)
  else none

/-- The unit that four hexadecimal digits give. -/
def hexUnit? (a b c d : UInt8) : Option Nat := do
  let a ← hexValue? a
  let b ← hexValue? b
  let c ← hexValue? c
  let d ← hexValue? d
  pure (((a * 16 + b) * 16 + c) * 16 + d)

/-- The byte a letter after a backslash stands for. -/
def escapedByte? (b : UInt8) : Option UInt8 :=
  if b = Ascii.quote then some Ascii.quote
  else if b = Ascii.backslash then some Ascii.backslash
  else if b = Ascii.slash then some Ascii.slash
  else if b = Ascii.lowerB then some 0x08
  else if b = Ascii.lowerF then some 0x0C
  else if b = Ascii.lowerN then some Ascii.lineFeed
  else if b = Ascii.lowerR then some Ascii.carriageReturn
  else if b = Ascii.lowerT then some Ascii.tab
  else none

/-- Read a string after its opening quote, up to the closing one. -/
def readSpelling? : Bytes → Option (Spelling × Bytes)
  | [] => none
  | Ascii.quote :: rest => some ([], rest)
  | Ascii.backslash :: Ascii.lowerU :: a :: b :: c :: d :: rest => do
    let unit ← hexUnit? a b c d
    let (units, rest) ← readSpelling? rest
    pure (.unit unit :: units, rest)
  | Ascii.backslash :: letter :: rest => do
    let byte ← escapedByte? letter
    let (units, rest) ← readSpelling? rest
    pure (.byte byte :: units, rest)
  | byte :: rest =>
    if byte = Ascii.backslash ∨ byte < Ascii.space then none
    else do
      let (units, rest) ← readSpelling? rest
      pure (.byte byte :: units, rest)

/-- What is left of a byte string after a word it begins with. -/
def afterWord? : Bytes → Bytes → Option Bytes
  | [], rest => some rest
  | _ :: _, [] => none
  | w :: word, b :: rest => if w = b then afterWord? word rest else none

/-- The token a byte string begins with and the bytes after it. The byte string must not
begin with white space. -/
def readToken? : Bytes → Option (Token × Bytes)
  | [] => none
  | Ascii.openBrace :: rest => some (.openBrace, rest)
  | Ascii.closeBrace :: rest => some (.closeBrace, rest)
  | Ascii.openBracket :: rest => some (.openBracket, rest)
  | Ascii.closeBracket :: rest => some (.closeBracket, rest)
  | Ascii.comma :: rest => some (.comma, rest)
  | Ascii.colon :: rest => some (.colon, rest)
  | Ascii.quote :: rest => (readSpelling? rest).map fun (s, rest) => (.string s, rest)
  | Ascii.lowerN :: rest => (afterWord? (utf8 "ull") rest).map fun rest => (.null, rest)
  | Ascii.lowerT :: rest => (afterWord? (utf8 "rue") rest).map fun rest => (.bool true, rest)
  | Ascii.lowerF :: rest => (afterWord? (utf8 "alse") rest).map fun rest => (.bool false, rest)
  | bytes => (readNumeral? bytes).map fun (n, rest) => (.numeral n, rest)

/-- Cut a byte string into at most as many tokens as the budget. -/
def tokensWithin : Nat → Bytes → List Token
  | 0, [] => []
  | 0, _ :: _ => [.junk]
  | budget + 1, bytes =>
    match bytes.dropWhile isGap with
    | [] => []
    | b :: rest =>
      match readToken? (b :: rest) with
      | none => [.junk]
      | some (token, rest) => token :: tokensWithin budget rest

/-- The tokens of a byte string. A token takes at least one byte, so the length of the byte
string is budget enough. -/
def tokens (bytes : Bytes) : List Token := tokensWithin (bytes.length + 1) bytes

end MarketFeed.Json
