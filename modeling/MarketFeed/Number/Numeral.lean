import MarketFeed.Bytes
import MarketFeed.Number.Layout

/-!
# Numerals and the doubles they are read as

A numeral of a document is a sign, whole digits without a needless leading zero, an optional
fraction and an optional exponent. It is read in two ways.

* A document keeps an integer that fits 64 bits exactly. Any other numeral is scaled: as
  many leading digits as fit an unsigned 64-bit word are rounded to a double, which is then
  multiplied or divided by a power of ten, itself rounded to a double. This takes two
  roundings, so the result need not be the double nearest to the numeral. A number beyond
  the largest double is refused.
* A numeric text, which may also have leading zeros, a plus sign or a point without digits on
  one side, is read as the double nearest to it, and beyond the largest double as infinity.
-/

namespace MarketFeed.Number

/-- The exponent of a numeral: its sign and its digits. -/
structure Exponent where
  negative : Bool
  digits : List Digit
  deriving DecidableEq, Repr

/-- A numeral as it stands in a text. -/
structure Numeral where
  negative : Bool
  whole : List Digit
  fraction : List Digit
  exponent : Option Exponent
  deriving DecidableEq, Repr

/-- The number a document gives for a numeral: an integer of 64 bits, signed or not, or a
double. -/
inductive Quantity
  | integer (n : Int)
  | double (x : Float)

/-! ## The grammar of documents -/

/-- Read the digits after a mark that must have some. -/
def someDigits? (bytes : Bytes) : Option (List Digit × Bytes) :=
  match takeDigits bytes with
  | ([], _) => none
  | (ds, rest) => some (ds, rest)

/-- Read the optional sign of an exponent and its digits. -/
def readExponent? (bytes : Bytes) : Option (Exponent × Bytes) :=
  match bytes with
  | Ascii.plus :: rest => (someDigits? rest).map fun (ds, rest) => (⟨false, ds⟩, rest)
  | Ascii.minus :: rest => (someDigits? rest).map fun (ds, rest) => (⟨true, ds⟩, rest)
  | rest => (someDigits? rest).map fun (ds, rest) => (⟨false, ds⟩, rest)

/-- Read an exponent if the byte string begins with its mark. -/
def readExponentPart? (bytes : Bytes) : Option (Option Exponent × Bytes) :=
  match bytes with
  | Ascii.lowerE :: rest => (readExponent? rest).map fun (e, rest) => (some e, rest)
  | Ascii.upperE :: rest => (readExponent? rest).map fun (e, rest) => (some e, rest)
  | rest => some (none, rest)

/-- Read a fraction if the byte string begins with a point. -/
def readFraction? (bytes : Bytes) : Option (List Digit × Bytes) :=
  match bytes with
  | Ascii.dot :: rest => someDigits? rest
  | rest => some ([], rest)

/-- Read the whole digits: a single zero, or digits that begin with another one. -/
def readWhole? (bytes : Bytes) : Option (List Digit × Bytes) :=
  match bytes with
  | Ascii.zero :: rest => some ([Digit.zero], rest)
  | rest => someDigits? rest

/-- Read the part of a numeral after its sign. -/
def readUnsigned? (negative : Bool) (bytes : Bytes) : Option (Numeral × Bytes) := do
  let (whole, rest) ← readWhole? bytes
  let (fraction, rest) ← readFraction? rest
  let (exponent, rest) ← readExponentPart? rest
  pure (⟨negative, whole, fraction, exponent⟩, rest)

/-- Read a numeral of a document. -/
def readNumeral? (bytes : Bytes) : Option (Numeral × Bytes) :=
  match bytes with
  | Ascii.minus :: rest => readUnsigned? true rest
  | rest => readUnsigned? false rest

/-! ## Scaling -/

/-- The largest unsigned word of 64 bits. -/
def wordMax : Nat := UInt64.size - 1

/-- The largest signed exponent that is counted exactly. -/
def exponentMax : Nat := Nat.pow 2 31 - 1

/-- A significand that fits a word, and the power of ten it counts. -/
structure Significand where
  value : Nat
  power : Int

/-- Add whole digits as long as the significand fits a word; each one after that only raises
the power. -/
def Significand.addWhole : Significand → List Digit → Significand
  | s, [] => s
  | s, d :: ds =>
    if s.power = 0 ∧ 10 * s.value + d.val ≤ wordMax then
      addWhole ⟨10 * s.value + d.val, 0⟩ ds
    else addWhole ⟨s.value, s.power + 1⟩ ds

/-- Add fraction digits up to the first one that no longer fits. -/
def Significand.addFraction : Significand → List Digit → Significand
  | s, [] => s
  | s, d :: ds =>
    if 10 * s.value + d.val ≤ wordMax then
      addFraction ⟨10 * s.value + d.val, s.power - 1⟩ ds
    else s

/-- The digits a document keeps of a numeral. -/
def Numeral.significand (n : Numeral) : Significand :=
  (Significand.addWhole ⟨0, 0⟩ n.whole).addFraction n.fraction

/-- A power of ten as a double. -/
def tenTo (k : Nat) : Float := Float.ofScientific 1 false k

/-- A significand times a power of ten, each step rounded to a double. A product beyond the
largest double is refused. Two divisions by the largest power of ten leave nothing of any
significand. -/
def scale? (value : Nat) (power : Int) : Option Float :=
  let x := value.toUInt64.toFloat
  if 0 ≤ power then
    if power ≤ 308 then
      let y := x * tenTo power.toNat
      if isFinite y then some y else none
    else if value = 0 then some x
    else none
  else if -308 ≤ power then some (x / tenTo (-power).toNat)
  else if -616 ≤ power then some (x / tenTo 308 / tenTo (-power - 308).toNat)
  else some 0

/-- Give a magnitude its sign. -/
def signed (negative : Bool) (x : Float) : Float := if negative then -x else x

/-- The double a document reads a numeral as. An exponent too large to be counted makes a
number zero or refused, whatever its other digits are. -/
def Numeral.scaled? (n : Numeral) : Option Float :=
  let s := n.significand
  match n.exponent with
  | none => (scale? s.value s.power).map (signed n.negative)
  | some e =>
    let count := ofDigits e.digits
    if exponentMax < count then
      if s.value ≠ 0 ∧ !e.negative then none else some (signed n.negative 0)
    else
      let power := if e.negative then s.power - count else s.power + count
      (scale? s.value power).map (signed n.negative)

/-- The integer a numeral stands for exactly: it has neither fraction nor exponent and fits a
word of 64 bits. A negative zero is not an integer. -/
def Numeral.integer? (n : Numeral) : Option Int :=
  let value := ofDigits n.whole
  if n.fraction ≠ [] ∨ n.exponent ≠ none then none
  else if n.negative then
    if 0 < value ∧ value ≤ Nat.pow 2 63 then some (-value) else none
  else if value ≤ wordMax then some value
  else none

/-- The number a document gives for a numeral. -/
def Numeral.quantity? (n : Numeral) : Option Quantity :=
  match n.integer? with
  | some i => some (.integer i)
  | none => n.scaled?.map .double

/-- An integer of 64 bits as the nearest double. -/
def floatOfInt (i : Int) : Float := signed (decide (i < 0)) i.natAbs.toUInt64.toFloat

/-- A number as a double. -/
def Quantity.toFloat : Quantity → Float
  | .integer i => floatOfInt i
  | .double x => x

/-- The text of a number in a document. -/
def Quantity.chars : Quantity → List Char
  | .integer i => intChars i
  | .double x => Layout.document.chars x

/-! ## Numeric texts -/

/-- The double nearest to `coefficient · 10 ^ power`. Numbers beyond the doubles on either
side are told from the count of their digits. -/
def nearest (coefficient : Nat) (power : Int) : Float :=
  let leading := power + (toDigits coefficient).length
  if coefficient = 0 then 0
  else if 310 < leading then 1.0 / 0.0
  else if leading < -330 then 0
  else if 0 ≤ power then Float.ofScientific coefficient false power.toNat
  else Float.ofScientific coefficient true (-power).toNat

/-- The words for numbers that are not finite, in lower case. -/
def wordFor? (bytes : Bytes) : Option Float :=
  if bytes = utf8 "inf" ∨ bytes = utf8 "infinity" then some (1.0 / 0.0)
  else if bytes = utf8 "nan" then some (0.0 / 0.0)
  else none

/-- An ASCII letter in lower case. -/
def lowerByte (b : UInt8) : UInt8 := if 0x41 ≤ b ∧ b ≤ 0x5A then b + 0x20 else b

/-- The digits after a point, if there is one. -/
def looseFraction (bytes : Bytes) : List Digit × Bytes :=
  match bytes with
  | Ascii.dot :: rest => takeDigits rest
  | rest => ([], rest)

/-- The magnitude a numeric text shows after its sign. -/
def readMagnitude? (bytes : Bytes) : Option Float :=
  match wordFor? (bytes.map lowerByte) with
  | some x => some x
  | none =>
    let (whole, rest) := takeDigits bytes
    let (fraction, rest) := looseFraction rest
    if whole = [] ∧ fraction = [] then none
    else
      match readExponentPart? rest with
      | some (exponent, []) =>
        let shift : Int := match exponent with
          | none => 0
          | some e => if e.negative then -(ofDigits e.digits : Int) else ofDigits e.digits
        some (nearest (ofDigits (whole ++ fraction)) (shift - fraction.length))
      | _ => none

/-- The double a numeric text shows, or nothing if it shows no number. -/
def readDouble? (bytes : Bytes) : Option Float :=
  match bytes with
  | Ascii.plus :: rest => readMagnitude? rest
  | Ascii.minus :: rest => (readMagnitude? rest).map (signed true)
  | rest => readMagnitude? rest

end MarketFeed.Number
