import MarketFeed.Event
import MarketFeed.Issue

/-!
# Canonical ticks

A canonical tick is what an event becomes when its quote is valid. It carries the envelope
of the event unchanged, the quote as numbers, and how good the quote is: the issues found
on the way, and a status that follows from them.
-/

namespace MarketFeed

open Json

/-- Where the values of a tick come from. -/
inductive QualityStatus
  /-- All of them come from the event. -/
  | canonical
  /-- The price was looked up. -/
  | fallback
  deriving DecidableEq, Repr

/-- The word for a status. -/
def QualityStatus.word : QualityStatus → String
  | .canonical => "canonical"
  | .fallback => "fallback"

/-- The status a word names. -/
def QualityStatus.ofWord? (word : String) : Option QualityStatus :=
  [QualityStatus.canonical, .fallback].find? fun status => status.word = word

/-- How good a quote is. -/
structure Quality where
  status : QualityStatus
  issues : IssueSet

/-- The quality that follows from a set of issues. -/
def Quality.ofIssues (issues : IssueSet) : Quality where
  status := if issues.contains Issue.priceBackfilled.code then .fallback else .canonical
  issues := issues

/-- The quote of a canonical tick. -/
structure CanonicalPayload where
  instrumentId : String
  market : String
  symbol : String
  sourceSystem : String
  sequence : UInt64
  price : Float
  volume : Option Float
  currency : Option String
  normalizedAt : Int64
  quality : Quality

/-- A tick as every later stage reads it. -/
structure CanonicalTick where
  envelope : Envelope
  payload : CanonicalPayload

/-- Ticks of one instrument belong together. -/
def CanonicalTick.key (tick : CanonicalTick) : String := tick.payload.instrumentId

/-! ## Reading -/

/-- Read a set of issues, from a list that may name one twice. -/
def IssueSet.read (tree : Tree) : Except Fault IssueSet :=
  (readList readString tree).map IssueSet.ofList

/-- The fields of a quality. -/
def Quality.fields : Fields [QualityStatus, IssueSet] :=
  .cons { key := "status", read := readWord QualityStatus.ofWord? } <|
  .cons { key := "issues", read := IssueSet.read } .nil

/-- Read a quality. -/
def Quality.read (tree : Tree) : Except Fault Quality := do
  let (status, issues, _) ← Quality.fields.read tree
  pure ⟨status, issues⟩

/-- The fields of the quote of a tick. -/
def CanonicalPayload.fields : Fields [String, String, String, String, UInt64, Float,
    Option Float, Option String, Int64, Quality] :=
  .cons { key := "instrument_id", read := readString } <|
  .cons { key := "market", read := readString } <|
  .cons { key := "symbol", read := readString } <|
  .cons { key := "source_system", read := readString } <|
  .cons { key := "sequence", read := readUInt64 } <|
  .cons { key := "price", read := readDouble } <|
  .cons { key := "volume", read := readNullable readDouble, absence := .ofObject none } <|
  .cons { key := "currency", read := readNullable readString, absence := .default none } <|
  .cons { key := "normalized_at", read := readInt64 } <|
  .cons { key := "quality", read := Quality.read } .nil

/-- Read the quote of a tick. -/
def CanonicalPayload.read (tree : Tree) : Except Fault CanonicalPayload := do
  let (instrumentId, market, symbol, sourceSystem, sequence, price, volume, currency,
    normalizedAt, quality, _) ← CanonicalPayload.fields.read tree
  pure ⟨instrumentId, market, symbol, sourceSystem, sequence, price, volume, currency,
    normalizedAt, quality⟩

/-- The fields of a tick. -/
def CanonicalTick.fields : Fields [Envelope, CanonicalPayload] :=
  .cons { key := "envelope", read := Envelope.read } <|
  .cons { key := "payload", read := CanonicalPayload.read } .nil

/-- Read a tick. -/
def CanonicalTick.read (tree : Tree) : Except Fault CanonicalTick := do
  let (envelope, payload, _) ← CanonicalTick.fields.read tree
  pure ⟨envelope, payload⟩

/-- Read the bytes of a message as a tick. -/
def CanonicalTick.decode (bytes : Bytes) : Except Fault CanonicalTick :=
  Json.decode CanonicalTick.read bytes

/-! ## Writing -/

/-- A double as a value; a document has no number for one that is not finite. -/
def finiteValue (x : Float) : Value := if Number.isFinite x then .double x else .null

/-- A set of issues as a value. -/
def IssueSet.value (set : IssueSet) : Value := .array (set.codes.map .string)

/-- A quality as a value. -/
def Quality.value (q : Quality) : Value :=
  .object [("status", .string q.status.word), ("issues", q.issues.value)]

/-- The quote of a tick as a value. -/
def CanonicalPayload.value (p : CanonicalPayload) : Value :=
  .object ([("instrument_id", .string p.instrumentId), ("market", .string p.market),
    ("symbol", .string p.symbol), ("source_system", .string p.sourceSystem),
    ("sequence", .integer p.sequence.toNat), ("price", finiteValue p.price),
    ("volume", .nullable finiteValue p.volume)] ++
    optionalMember "currency" .string p.currency ++
    [("normalized_at", .integer p.normalizedAt.toInt), ("quality", p.quality.value)])

/-- A tick as a value. -/
def CanonicalTick.value (tick : CanonicalTick) : Value :=
  .object [("envelope", tick.envelope.value), ("payload", tick.payload.value)]

/-- The bytes a tick is published as. -/
def CanonicalTick.encode (tick : CanonicalTick) : Bytes := utf8 tick.value.text

end MarketFeed
