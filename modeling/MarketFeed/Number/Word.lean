import MarketFeed.Bytes
import MarketFeed.Number.Digits

/-!
# Numbers of a fixed width in words

A setting that is a number is written as digits, with an optional plus sign before them.
Leading zeros are allowed; a number that does not fit the width is refused.
-/

namespace MarketFeed.Number

/-- Read digits, at least one and nothing else, as a number below a limit. -/
def readDigitsBelow? (limit : Nat) (bytes : Bytes) : Option Nat :=
  match takeDigits bytes with
  | ([], _) => none
  | (ds, []) => if ofDigits ds < limit then some (ofDigits ds) else none
  | (_, _ :: _) => none

/-- Read a number below a limit. -/
def readBelow? (limit : Nat) (s : String) : Option Nat :=
  match utf8 s with
  | Ascii.plus :: rest => readDigitsBelow? limit rest
  | bytes => readDigitsBelow? limit bytes

/-- Read a number of 16 bits. -/
def readUInt16? (s : String) : Option UInt16 := (readBelow? UInt16.size s).map UInt16.ofNat

/-- Read a number of 32 bits. -/
def readUInt32? (s : String) : Option UInt32 := (readBelow? UInt32.size s).map UInt32.ofNat

/-- Read a number of 64 bits. -/
def readUInt64? (s : String) : Option UInt64 := (readBelow? UInt64.size s).map UInt64.ofNat

end MarketFeed.Number
