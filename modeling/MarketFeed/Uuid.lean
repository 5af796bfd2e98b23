/-!
# Identifiers ordered by time

An identifier of 128 bits begins with the milliseconds since the Unix epoch, so identifiers
sort by the time at which they were made; a version and a variant are fixed, and the
remaining 74 bits tell identifiers of one millisecond apart.
-/

namespace MarketFeed

/-- An identifier by its parts: 48 bits of time, 12 bits and 62 bits that set it apart. -/
structure Uuid where
  millis : Nat
  high : Nat
  low : Nat
  deriving DecidableEq, Repr

/-- The number of an identifier: version 7 and variant 2 stand between its parts. -/
def Uuid.number (id : Uuid) : Nat :=
  let head := (id.millis % Nat.pow 2 48 * 16 + 7) * Nat.pow 2 12 + id.high % Nat.pow 2 12
  (head * 4 + 2) * Nat.pow 2 62 + id.low % Nat.pow 2 62

/-- As many hexadecimal digits of a number as asked for, the lowest ones. -/
def hexOf : Nat → Nat → List Char
  | 0, _ => []
  | count + 1, n => hexOf count (n / 16) ++ [Nat.digitChar (n % 16)]

/-- The text of an identifier: 32 digits in groups of 8, 4, 4, 4 and 12. -/
def Uuid.text (id : Uuid) : String :=
  let digits := hexOf 32 id.number
  let group (start count : Nat) := (digits.drop start).take count
  String.ofList (group 0 8 ++ '-' :: group 8 4 ++ '-' :: group 12 4 ++ '-' :: group 16 4 ++
    '-' :: group 20 12)

/-- The identifier number `serial` made at an instant, in microseconds since the epoch. -/
def Uuid.make (micros : Int) (serial : Nat) : Uuid :=
  ⟨(micros / 1000).toNat, serial / Nat.pow 2 62, serial⟩

end MarketFeed
