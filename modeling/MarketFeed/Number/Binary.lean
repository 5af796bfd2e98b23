/-!
# Binary floating point numbers taken apart

A double is not a number, or an infinity with a sign, or a signed significand times a power
of two. The bit pattern has one sign bit, eleven exponent bits and fifty-two fraction bits.
-/

namespace MarketFeed.Number

/-- What a bit pattern of sixty-four bits stands for. -/
inductive Shape
  | notANumber
  | infinite (negative : Bool)
  | finite (negative : Bool) (significand : Nat) (exponent : Int)
  deriving DecidableEq, Repr

/-- Take a bit pattern apart. The exponent field 0 marks the numbers without a hidden bit,
the field 2047 the patterns that are no numbers. -/
def Shape.ofBits (bits : Nat) : Shape :=
  let negative := decide (bits / Nat.pow 2 63 % 2 = 1)
  let field : Nat := bits / Nat.pow 2 52 % Nat.pow 2 11
  let fraction : Nat := bits % Nat.pow 2 52
  if field = 2047 then
    if fraction = 0 then .infinite negative else .notANumber
  else if field = 0 then .finite negative fraction (-1074)
  else .finite negative (Nat.pow 2 52 + fraction) ((field : Int) - 1075)

/-- Take a double apart. -/
def Shape.ofFloat (x : Float) : Shape := Shape.ofBits x.toBits.toNat

end MarketFeed.Number
