import MarketFeed.Number.Shortest

/-!
# How a double is written

A double is written with the fewest digits that read back as the same double. Where the
point goes is a matter of the layout: the one of documents keeps a fraction on whole numbers
and turns to an exponent for very large and very small ones, the one of messages writes
every number out in full.
-/

namespace MarketFeed.Number

/-- The choices left open once the digits of a number are known. -/
structure Layout where
  /-- The least power of ten of a leading digit that is written without an exponent. -/
  leastPlain : Option Int
  /-- The greatest power of ten of a leading digit that is written without an exponent. -/
  greatestPlain : Option Int
  /-- A whole number written without an exponent ends in a zero after the point. -/
  wholeFraction : Bool

/-- Documents: plain from `1e-5` up to below `1e16`, always with a fraction or an exponent. -/
def Layout.document : Layout := ⟨some (-5), some 15, true⟩

/-- Messages: always plain, and whole numbers without a point. -/
def Layout.message : Layout := ⟨none, none, false⟩

/-- A number whose leading digit counts `10 ^ power` is written without an exponent. -/
def Layout.isPlain (layout : Layout) (power : Int) : Bool :=
  (layout.leastPlain.all fun least => decide (least ≤ power)) &&
    layout.greatestPlain.all fun greatest => decide (power ≤ greatest)

/-- The digits with the point in its place, filled up with zeros where they do not reach it. -/
def Layout.plainChars (layout : Layout) (digits : List Digit) (power : Int) : List Char :=
  let shown := digitChars digits
  if power < 0 then
    ['0', '.'] ++ List.replicate (-power - 1).toNat '0' ++ shown
  else
    let whole := power.toNat + 1
    if shown.length ≤ whole then
      shown ++ List.replicate (whole - shown.length) '0' ++
        (if layout.wholeFraction then ['.', '0'] else [])
    else shown.take whole ++ '.' :: shown.drop whole

/-- The digits with the point after the first one, and the power of ten behind an `e`. -/
def exponentChars (digits : List Digit) (power : Int) : List Char :=
  let shown := digitChars digits
  shown.take 1 ++ (if shown.length ≤ 1 then [] else '.' :: shown.drop 1) ++
    'e' :: (if power < 0 then intChars power else '+' :: intChars power)

/-- A positive decimal under a layout. -/
def Layout.decimalChars (layout : Layout) (d : Decimal) : List Char :=
  let digits := toDigits d.coefficient
  let power := d.exponent + digits.length - 1
  if layout.isPlain power then layout.plainChars digits power else exponentChars digits power

/-- A finite double under a layout; zero keeps its sign. -/
def Layout.finiteChars (layout : Layout) (negative : Bool) (m : Nat) (q : Int) : List Char :=
  (if negative then ['-'] else []) ++
    if m = 0 then layout.plainChars [Digit.zero] 0 else layout.decimalChars (shortest m q)

/-- A double under a layout. -/
def Layout.chars (layout : Layout) (x : Float) : List Char :=
  match Shape.ofFloat x with
  | .notANumber => "NaN".toList
  | .infinite false => "inf".toList
  | .infinite true => "-inf".toList
  | .finite negative m q => layout.finiteChars negative m q

/-- The text of a double under a layout. -/
def Layout.text (layout : Layout) (x : Float) : String := String.ofList (layout.chars x)

/-- The double is a number and not an infinity. -/
def isFinite (x : Float) : Bool :=
  match Shape.ofFloat x with
  | .finite .. => true
  | _ => false

end MarketFeed.Number
