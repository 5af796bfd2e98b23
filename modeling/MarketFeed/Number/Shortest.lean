import MarketFeed.Number.Binary
import MarketFeed.Number.Digits

/-!
# The shortest decimal of a double

Among the decimals that round to a given double, the ones with the fewest digits lie on the
coarsest decimal grid that meets the interval of reals rounding to it. On each grid only the
two neighbours of the double itself need to be looked at: if any point of the grid lies in
the interval, one of the two does. Of two neighbours in the interval the nearer one is
taken, and of two equally near ones the even one.

All comparisons are between natural numbers. The double `m · 2 ^ q` and the ends of its
interval are counted in quarters of `2 ^ q`.
-/

namespace MarketFeed.Number

/-- A positive decimal: a coefficient times a power of ten. -/
structure Decimal where
  coefficient : Nat
  exponent : Int
  deriving DecidableEq, Repr

/-- The reals that round to `m · 2 ^ q`: the double and both ends, in quarters of `2 ^ q`. -/
structure Rounding where
  low : Nat
  middle : Nat
  high : Nat
  unit : Int
  endsIncluded : Bool

/-- The interval of a positive double. It is narrower below when the double is a power of
two with a hidden bit, and its ends belong to it when the significand is even. -/
def Rounding.of (m : Nat) (q : Int) : Rounding where
  low := if m = Nat.pow 2 52 ∧ q ≠ -1074 then 4 * m - 1 else 4 * m - 2
  middle := 4 * m
  high := 4 * m + 2
  unit := q - 2
  endsIncluded := m % 2 == 0

/-- The factor that turns a count of quarters into a multiple of the common denominator of
the quarters and the grid `10 ^ k`. -/
def Rounding.scale (r : Rounding) (k : Int) : Nat := Nat.pow 2 r.unit.toNat * Nat.pow 10 (-k).toNat

/-- One step of the grid `10 ^ k`, counted in the same denominator. -/
def Rounding.step (r : Rounding) (k : Int) : Nat := Nat.pow 2 (-r.unit).toNat * Nat.pow 10 k.toNat

/-- The point `c · 10 ^ k` rounds to the double. -/
def Rounding.contains (r : Rounding) (k : Int) (c : Nat) : Bool :=
  let x := c * r.step k
  let low := r.low * r.scale k
  let high := r.high * r.scale k
  if r.endsIncluded then low ≤ x && x ≤ high else low < x && x < high

/-- The neighbour of the double on the grid `10 ^ k` that rounds to it, the nearer one if
both do. -/
def Rounding.onGrid? (r : Rounding) (k : Int) : Option Nat :=
  let middle := r.middle * r.scale k
  let below := middle / r.step k
  let above := below + 1
  match r.contains k below, r.contains k above with
  | true, false => some below
  | false, true => some above
  | false, false => none
  | true, true =>
    let fromBelow := middle - below * r.step k
    let fromAbove := above * r.step k - middle
    if fromBelow < fromAbove then some below
    else if fromAbove < fromBelow then some above
    else some (if below % 2 = 0 then below else above)

/-- The first grid from `10 ^ k` downwards that has a point in the interval. -/
def Rounding.search (r : Rounding) : Nat → Int → Decimal
  | 0, k => ⟨0, k⟩
  | fuel + 1, k =>
    match r.onGrid? k with
    | some c => ⟨c, k⟩
    | none => r.search fuel (k - 1)

/-- The shortest decimal that rounds to `m · 2 ^ q`. No double reaches `10 ^ 309`, and every
double is met at the latest on the grid `10 ^ -340`. -/
def shortest (m : Nat) (q : Int) : Decimal := (Rounding.of m q).search 650 309

end MarketFeed.Number
