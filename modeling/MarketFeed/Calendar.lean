/-!
# Instants in the calendar

Instants count microseconds since the Unix epoch. For people to read, an instant is a date
of the Gregorian calendar, extended to all years, and a time of the day in UTC. Years from
-262143 to 262142 can be shown.

A year is counted from its March, so that the leap day is its last day; then 400 years have
146097 days, and the month follows from the day of the year by a linear formula.
-/

namespace MarketFeed

/-- A date and a time of the day. -/
structure CivilTime where
  year : Int
  month : Nat
  day : Nat
  hour : Nat
  minute : Nat
  second : Nat
  micros : Nat
  deriving DecidableEq, Repr

/-- The year, month and day that are so many days after the first of January 1970. -/
def civilDate (days : Int) : Int × Nat × Nat :=
  let shifted := days + 719468
  let era := shifted / 146097
  let dayOfEra := (shifted % 146097).toNat
  let yearOfEra :=
    (dayOfEra - dayOfEra / 1460 + dayOfEra / 36524 - dayOfEra / 146096) / 365
  let dayOfYear := dayOfEra - (365 * yearOfEra + yearOfEra / 4 - yearOfEra / 100)
  let monthFromMarch := (5 * dayOfYear + 2) / 153
  let day := dayOfYear - (153 * monthFromMarch + 2) / 5 + 1
  let month := if monthFromMarch < 10 then monthFromMarch + 3 else monthFromMarch - 9
  let year := yearOfEra + era * 400 + (if month ≤ 2 then 1 else 0)
  (year, month, day)

/-- The microseconds of a day. -/
def microsPerDay : Int := 86400000000

/-- An instant in the calendar, if its year can be shown. -/
def civilTime? (micros : Int) : Option CivilTime :=
  let (year, month, day) := civilDate (micros / microsPerDay)
  let ofDay := (micros % microsPerDay).toNat
  if -262143 ≤ year ∧ year ≤ 262142 then
    some ⟨year, month, day, ofDay / 3600000000, ofDay / 60000000 % 60, ofDay / 1000000 % 60,
      ofDay % 1000000⟩
  else none

end MarketFeed
