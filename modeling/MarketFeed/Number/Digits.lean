/-!
# Decimal digits

A number in positional notation is a list of digits, the most significant first.
-/

namespace MarketFeed.Number

/-- A decimal digit. -/
abbrev Digit := Fin 10

/-- The digit 0. -/
def Digit.zero : Digit := ⟨0, by decide⟩

/-- The number a list of digits denotes. -/
def ofDigits (ds : List Digit) : Nat := ds.foldl (fun n d => 10 * n + d.val) 0

/-- The digits of a number in front of the given ones; the fuel bounds their count. -/
def digitsOnto : Nat → Nat → List Digit → List Digit
  | 0, _, ds => ds
  | fuel + 1, n, ds =>
    let ds := Fin.ofNat 10 n :: ds
    if n < 10 then ds else digitsOnto fuel (n / 10) ds

/-- The digits of a number, without leading zeros; zero is the single digit 0. -/
def toDigits (n : Nat) : List Digit := digitsOnto (n + 1) n []

/-- The character that shows a digit. -/
def Digit.toChar (d : Digit) : Char := Char.ofNat (d.val + 48)

/-- The digit a byte shows. -/
def Digit.ofByte? (b : UInt8) : Option Digit :=
  if h : 48 ≤ b.toNat ∧ b.toNat < 58 then some ⟨b.toNat - 48, by omega⟩ else none

/-- Write digits as characters. -/
def digitChars (ds : List Digit) : List Char := ds.map Digit.toChar

/-- Write a natural number in decimal. -/
def natChars (n : Nat) : List Char := digitChars (toDigits n)

/-- Write an integer in decimal, with a sign when it is negative. -/
def intChars : Int → List Char
  | .ofNat n => natChars n
  | .negSucc n => '-' :: natChars (n + 1)

/-- The decimal text of a natural number. -/
def natText (n : Nat) : String := String.ofList (natChars n)

/-- The decimal text of an integer. -/
def intText (n : Int) : String := String.ofList (intChars n)

/-- The digits a byte string begins with, and the bytes after them. -/
def takeDigits : List UInt8 → List Digit × List UInt8
  | [] => ([], [])
  | b :: rest =>
    match Digit.ofByte? b with
    | some d => let (ds, rest) := takeDigits rest; (d :: ds, rest)
    | none => ([], b :: rest)

end MarketFeed.Number
