import MarketFeed.Metrics.Ledger

/-!
# The metrics page

The page shows each series under its family and its labels, with their values in quotes. A
histogram is shown as one series for each bound, which counts all durations within it, one
for the number of durations and one for their sum.
-/

namespace MarketFeed

/-- A family and labels as they stand on the page. -/
def pageName (family : String) (labels : List (String × String)) : String :=
  match labels with
  | [] => family
  | labels =>
    family ++ "\x7b" ++ ",".intercalate (labels.map fun l => l.1 ++ "=\"" ++ l.2 ++ "\"") ++
      "\x7d"

/-- The bounds of a histogram as they stand on the page, with the counts within them. -/
def Durations.buckets (d : Durations) : List (String × Nat) :=
  List.zipWith (fun bound n => (bound.2, n)) durationBounds d.within ++ [("+Inf", d.count)]

/-- The series of the page for a reading, with their values. The sum of durations is in
milliseconds. -/
def Series.pageEntries (series : Series) : Reading → List (String × Nat)
  | .total n => [(pageName series.family series.labels, n)]
  | .level n => [(pageName series.family series.labels, n)]
  | .durations d =>
    d.buckets.map (fun bucket =>
      (pageName (series.family ++ "_bucket") (series.labels ++ [("le", bucket.1)]), bucket.2)) ++
    [(pageName (series.family ++ "_count") series.labels, d.count),
     (pageName (series.family ++ "_sum") series.labels, d.millis)]

/-- All series of the page that are not at zero. -/
def Ledger.page (ledger : Ledger) : List (String × Nat) :=
  (ledger.flatMap fun entry => entry.1.pageEntries entry.2).filter fun entry => entry.2 ≠ 0

/-- The families of the series on the page, with their kinds. -/
def Ledger.pageTypes (ledger : Ledger) : List (String × SeriesKind) :=
  let shown := ledger.filter fun entry => (entry.1.pageEntries entry.2).any fun e => e.2 ≠ 0
  (shown.map fun entry => (entry.1.family, entry.1.kind)).eraseDups

end MarketFeed
