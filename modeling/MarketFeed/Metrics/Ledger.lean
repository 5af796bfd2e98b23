import MarketFeed.Metrics.Series

/-!
# The ledger of measurements

The ledger holds a reading for every series that was touched, also for a counter that grew
by nothing. Durations are whole milliseconds. A histogram counts, for each of its bounds, the
durations that do not exceed it.
-/

namespace MarketFeed

/-- The bounds of a histogram, in microseconds, and how they are written in seconds. -/
def durationBounds : List (Nat × String) :=
  [(500, "0.0005"), (1000, "0.001"), (5000, "0.005"), (10000, "0.01"), (25000, "0.025"),
   (50000, "0.05"), (100000, "0.1"), (250000, "0.25"), (500000, "0.5"), (1000000, "1"),
   (2500000, "2.5"), (5000000, "5")]

/-- Durations that were recorded: how many, how long together, and how many within each
bound. -/
structure Durations where
  count : Nat
  millis : Nat
  within : List Nat
  deriving DecidableEq, Repr

/-- No durations. -/
def Durations.none : Durations := ⟨0, 0, durationBounds.map fun _ => 0⟩

/-- Record a duration. -/
def Durations.record (d : Durations) (millis : Nat) : Durations where
  count := d.count + 1
  millis := d.millis + millis
  within := List.zipWith (fun n bound => if millis * 1000 ≤ bound.1 then n + 1 else n)
    d.within durationBounds

/-- What a series reads. -/
inductive Reading
  | total (n : Nat)
  | level (n : Nat)
  | durations (d : Durations)
  deriving DecidableEq, Repr

/-- The readings of all series that were touched. -/
abbrev Ledger := List (Series × Reading)

namespace Ledger

/-- The reading of a series. -/
def reading? (ledger : Ledger) (series : Series) : Option Reading :=
  (ledger.find? fun entry => entry.1 = series).map (·.2)

/-- Replace the reading of a series, or add it. -/
def put (series : Series) (reading : Reading) : Ledger → Ledger
  | [] => [(series, reading)]
  | (s, r) :: rest =>
    if s = series then (s, reading) :: rest else (s, r) :: put series reading rest

/-- The total of a counter; of one that was not touched it is zero. -/
def total (ledger : Ledger) (series : Series) : Nat :=
  match ledger.reading? series with
  | some (.total n) => n
  | _ => 0

/-- The durations of a histogram. -/
def durations (ledger : Ledger) (series : Series) : Durations :=
  match ledger.reading? series with
  | some (.durations d) => d
  | _ => Durations.none

/-- Let a counter grow. -/
def add (ledger : Ledger) (series : Series) (n : Nat) : Ledger :=
  ledger.put series (.total (ledger.total series + n))

/-- Let a counter grow by one. -/
def count (ledger : Ledger) (series : Series) : Ledger := ledger.add series 1

/-- Set a gauge. -/
def set (ledger : Ledger) (series : Series) (n : Nat) : Ledger := ledger.put series (.level n)

/-- Record a duration, in milliseconds. -/
def record (ledger : Ledger) (series : Series) (millis : Nat) : Ledger :=
  ledger.put series (.durations ((ledger.durations series).record millis))

end Ledger

end MarketFeed
