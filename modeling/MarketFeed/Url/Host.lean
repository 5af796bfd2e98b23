import MarketFeed.Number.Digits
import MarketFeed.Text.Blank
import MarketFeed.Text.Pieces
import MarketFeed.Url.Percent
import MarketFeed.Url.Punycode

/-!
# Hosts

The host of a URL is a name or an address. Under the special schemes a name is written in
lower case and in ASCII without escapes, and a name whose last label is a number must be an
address of 32 bits, of which up to three numbers may be left out and which may be written to
the bases 8 and 16. An address of 128 bits stands in brackets, as eight pieces, of which a run
of zeros may be left out. Under other schemes a name is taken as it is.
-/

namespace MarketFeed

/-- Why a text is no URL that others can be built on. -/
inductive UrlError
  | relative
  | emptyHost
  | badName
  | badNameCharacter
  | badAddress
  | badLongAddress
  | badNumber
  | rootless
  deriving DecidableEq, Repr

/-- The message about a text that is no URL. -/
def UrlError.message : UrlError → String
  | relative => "relative URL without a base"
  | emptyHost => "empty host"
  | badName => "invalid international domain name"
  | badNameCharacter => "invalid domain character"
  | badAddress => "invalid IPv4 address"
  | badLongAddress => "invalid IPv6 address"
  | badNumber => "invalid port number"
  | rootless => "not a base URL"

/-- A host: a name, an address of 32 bits, or one of 128 bits by its eight pieces. -/
inductive Host
  | name (s : List Char)
  | address (n : Nat)
  | longAddress (pieces : List Nat)
  deriving DecidableEq, Repr

namespace Host

open Text Number Url

/-! ## Writing -/

/-- The four numbers of an address with points between them. -/
def addressChars (n : Nat) : List Char :=
  natChars (n / Nat.pow 2 24 % 256) ++ '.' :: natChars (n / Nat.pow 2 16 % 256) ++
    '.' :: natChars (n / Nat.pow 2 8 % 256) ++ '.' :: natChars (n % 256)

/-- The digits of a number to the base 16, without leading zeros. -/
def hexChars (n : Nat) : List Char := Nat.toDigits 16 n

/-- Pieces with colons between them. -/
def pieceChars : List Nat → List Char
  | [] => []
  | [n] => hexChars n
  | n :: rest => hexChars n ++ ':' :: pieceChars rest

/-- How many zeros a list begins with. -/
def zerosAhead (pieces : List Nat) : Nat := (pieces.takeWhile (· = 0)).length

/-- The start and the length of the first longest run of zeros. -/
def longestZeros : Nat → List Nat → Nat × Nat
  | _, [] => (0, 0)
  | start, n :: rest =>
    let here := zerosAhead (n :: rest)
    let later := longestZeros (start + 1) rest
    if here = 0 then later else if later.2 ≤ here then (start, here) else later

/-- The pieces of an address, two colons in place of its longest run of zeros if that has two
of them at least. -/
def longAddressChars (pieces : List Nat) : List Char :=
  let (start, length) := longestZeros 0 pieces
  if length < 2 then pieceChars pieces
  else pieceChars (pieces.take start) ++ ':' :: ':' :: pieceChars (pieces.drop (start + length))

/-- The text of a host. -/
def chars : Host → List Char
  | name s => s
  | address n => addressChars n
  | longAddress pieces => '[' :: longAddressChars pieces ++ [']']

/-! ## Reading addresses -/

/-- Read a number to a base up to 16. There may be no digits, which make zero. -/
def readToBase? (base : Nat) : Nat → List Char → Option Nat
  | n, [] => some n
  | n, c :: rest =>
    match hexValue? c with
    | some d => if d < base then readToBase? base (n * base + d) rest else none
    | none => none

/-- Read a number of an address. A leading zero tells the base. -/
def readAddressNumber? : List Char → Option Nat
  | [] => none
  | '0' :: 'x' :: rest => readToBase? 16 0 rest
  | '0' :: 'X' :: rest => readToBase? 16 0 rest
  | '0' :: c :: rest => readToBase? 8 0 (c :: rest)
  | s => readToBase? 10 0 s

/-- The labels of a name; a point at the end starts none. -/
def labels (s : List Char) : List (List Char) :=
  let all := pieces (· = '.') s
  if all.getLast? = some [] then all.dropLast else all

/-- The name must be read as an address: its last label is a number. -/
def endsInNumber (s : List Char) : Bool :=
  match (labels s).getLast? with
  | none => false
  | some label =>
    (!label.isEmpty && label.all Char.isDigit) || (readAddressNumber? label).isSome

/-- Put the numbers of an address together: all but the last are bytes from the top, and the
last fills what remains. -/
def joinAddress? (place : Nat) : List Nat → Option Nat
  | [] => none
  | [n] => if n < Nat.pow 256 (place + 1) then some n else none
  | n :: rest =>
    match place with
    | 0 => none
    | below + 1 =>
      if n < 256 then
        (joinAddress? below rest).map fun m => n * Nat.pow 256 (below + 1) + m
      else none

/-- Read an address of 32 bits. -/
def readAddress? (s : List Char) : Option Nat := do
  let numbers ← (labels s).mapM readAddressNumber?
  joinAddress? 3 numbers

/-- Read a piece of a long address: one to four hexadecimal digits. -/
def readPiece? (s : List Char) : Option Nat :=
  if s.isEmpty || 4 < s.length then none else readToBase? 16 0 s

/-- Read a byte in decimal, without leading zeros. -/
def readByte? (s : List Char) : Option Nat :=
  match s with
  | [] => none
  | ['0'] => some 0
  | '0' :: _ => none
  | s => (readToBase? 10 0 s).bind fun n => if n < 256 then some n else none

/-- Read four bytes with points between them as two pieces. -/
def readByteQuad? (s : List Char) : Option (List Nat) :=
  match (pieces (· = '.') s).mapM readByte? with
  | some [a, b, c, d] => some [a * 256 + b, c * 256 + d]
  | _ => none

/-- Read pieces of a long address; the last may be four bytes if that is allowed. -/
def readPieces? (quad : Bool) : List (List Char) → Option (List Nat)
  | [] => some []
  | [s] => if quad && s.contains '.' then readByteQuad? s else (readPiece? s).map ([·])
  | s :: rest => do
    let n ← readPiece? s
    let ns ← readPieces? quad rest
    pure (n :: ns)

/-- Read pieces with colons between them; there may be none. -/
def readPieceText? (quad : Bool) : List Char → Option (List Nat)
  | [] => some []
  | s => readPieces? quad (pieces (· = ':') s)

/-- Cut a text at its first two colons. -/
def cutAtColons? : List Char → Option (List Char × List Char)
  | ':' :: ':' :: rest => some ([], rest)
  | [] => none
  | c :: rest => (cutAtColons? rest).map fun (before, after) => (c :: before, after)

/-- Read the pieces of a long address. -/
def readLongAddress? (s : List Char) : Option (List Nat) :=
  match cutAtColons? s with
  | none => do
    let all ← readPieceText? true s
    if all.length = 8 then some all else none
  | some (before, after) => do
    let front ← readPieceText? false before
    let back ← readPieceText? true after
    let given := front.length + back.length
    if given < 8 then some (front ++ List.replicate (8 - given) 0 ++ back) else none

/-- Read a long address in its brackets. -/
def readBracketed (s : List Char) : Except UrlError Host :=
  match s.getLast? with
  | some ']' =>
    match readLongAddress? s.dropLast with
    | some pieces => .ok (.longAddress pieces)
    | none => .error .badLongAddress
  | _ => .error .badLongAddress

/-! ## Reading names -/

/-- Characters that no name holds. -/
def forbidden (c : Char) : Bool :=
  [' ', '#', '/', ':', '<', '>', '?', '@', '[', '\\', ']', '^', '|'].contains c

/-- Characters that no name under a special scheme holds. -/
def forbiddenInName (c : Char) : Bool :=
  forbidden c || c == '%' || c.toNat < 0x20 || (0x7F ≤ c.toNat && c.toNat < 0xA0) ||
    isBlankChar c

/-- Read a host under a special scheme. -/
def read (s : List Char) : Except UrlError Host :=
  match s with
  | '[' :: rest => readBracketed rest
  | s =>
    match readUtf8 (unescape s) with
    | none => .error .badName
    | some decoded =>
      let mapped := decoded.toList.flatMap nameChars
      let name := asciiName mapped
      if mapped.any forbiddenInName then .error .badName
      else if name.isEmpty then .error .emptyHost
      else if endsInNumber name then
        match readAddress? name with
        | some n => .ok (.address n)
        | none => .error .badAddress
      else .ok (.name name)

/-- Read a host under another scheme. -/
def readPlain (s : List Char) : Except UrlError Host :=
  match s with
  | '[' :: rest => readBracketed rest
  | s =>
    if s.any fun c => forbidden c || c.toNat = 0 then .error .badNameCharacter
    else .ok (.name (escape alwaysEscaped s))

end Host

end MarketFeed
