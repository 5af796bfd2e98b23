/-!
# Issue codes

An issue code names one thing that is remarkable about an event. The codes of this service
are a closed choice; a source may attach codes of its own, so a set of issues holds texts.

A set of issues keeps the order in which codes were first added and holds each code once.
-/

namespace MarketFeed

/-- The issues the service itself finds. -/
inductive Issue
  /-- The blob is absent, its encoding is absent or unknown, or it cannot be decoded. -/
  | schemaValidationFailed
  /-- No instrument is named, or the symbol is blank. -/
  | missingInstrumentId
  /-- The price is not a positive finite number. -/
  | invalidPrice
  /-- The volume is not a non-negative finite number. -/
  | invalidVolume
  /-- There is no volume. -/
  | missingVolume
  /-- There is no price, and none is looked up. -/
  | missingPrice
  /-- The lookup of a price gave no usable one. -/
  | priceBackfillMiss
  /-- The lookup of a price failed. -/
  | priceBackfillFailed
  /-- The price was looked up. -/
  | priceBackfilled
  deriving DecidableEq, Repr

/-- All issues the service finds. -/
def Issue.all : List Issue :=
  [.schemaValidationFailed, .missingInstrumentId, .invalidPrice, .invalidVolume, .missingVolume,
   .missingPrice, .priceBackfillMiss, .priceBackfillFailed, .priceBackfilled]

/-- The code of an issue. -/
def Issue.code : Issue → String
  | .schemaValidationFailed => "schema_validation_failed"
  | .missingInstrumentId => "missing_instrument_id"
  | .invalidPrice => "invalid_price"
  | .invalidVolume => "invalid_volume"
  | .missingVolume => "missing_volume"
  | .missingPrice => "missing_price"
  | .priceBackfillMiss => "price_backfill_miss"
  | .priceBackfillFailed => "price_backfill_failed"
  | .priceBackfilled => "price_backfilled"

/-- The issue a code names. -/
def Issue.ofCode? (code : String) : Option Issue := Issue.all.find? fun issue => issue.code = code

/-- Codes in the order in which they were first added. -/
structure IssueSet where
  codes : List String
  nodup : codes.Nodup

namespace IssueSet

/-- No codes. -/
def empty : IssueSet := ⟨[], List.nodup_nil⟩

instance : Inhabited IssueSet := ⟨empty⟩

/-- The set holds the code. -/
def contains (set : IssueSet) (code : String) : Bool := set.codes.contains code

/-- Add a code at the end, unless the set holds it. -/
def insert (set : IssueSet) (code : String) : IssueSet :=
  if h : code ∈ set.codes then set
  else ⟨set.codes ++ [code], by
    rw [List.nodup_append]
    exact ⟨set.nodup, by simp, fun a ha b hb hab => by simp_all⟩⟩

/-- Add a code at the end unless the set holds it, and tell whether it was added. -/
def tryInsert (set : IssueSet) (code : String) : Bool × IssueSet :=
  if set.contains code then (false, set) else (true, set.insert code)

/-- Add codes one after the other. -/
def insertAll (set : IssueSet) (codes : List String) : IssueSet := codes.foldl insert set

/-- The set of the codes of a list. -/
def ofList (codes : List String) : IssueSet := empty.insertAll codes

end IssueSet

end MarketFeed
