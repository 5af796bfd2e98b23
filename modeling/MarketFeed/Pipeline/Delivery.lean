import MarketFeed.DeadLetter
import MarketFeed.Guard
import MarketFeed.Metrics.Ledger
import MarketFeed.Normalization

/-!
# A delivery on its way to one output

A delivery is one attempt to bring a message to its output. It goes through a few steps, and
between two of its steps other deliveries may go through theirs: it asks the guard whether
the id is live, it may ask the historical store for a price, it marks the id, it hands its
output to the sink, and if the sink fails it withdraws the mark. What all deliveries share,
the guard among it, is changed by these steps only.

A delivery ends with exactly one of a tick, a dead letter and nothing, or it fails and has to
be tried again.
-/

namespace MarketFeed

/-- What the bytes of a message are taken for. -/
inductive Intake
  /-- An event, and the place it was read from if it came from the input topic. -/
  | event (event : RawEvent) (source : Option Coordinates)
  /-- No event; it goes under the id it seems to carry or, failing that, under its place. -/
  | stray (eventId : String) (envelope : Option Envelope) (source : Coordinates)
    (reason : String)

namespace Intake

/-- What a message from the input topic is taken for. -/
def ofMessage (bytes : Bytes) (source : Coordinates) : Intake :=
  match RawEvent.decode bytes with
  | .ok e => .event e (some source)
  | .error fault =>
    .stray ((probeEventId bytes).getD source.text) (probeEnvelope bytes) source fault.message

/-- The id a message goes under. -/
def id : Intake → String
  | .event e _ => e.id
  | .stray eventId _ _ _ => eventId

/-- What is known about a message in case it fails. -/
def context : Intake → FailureContext
  | .event e source => ⟨e.id, some e.envelope, e.payload.metadata.retryCount, source⟩
  | .stray eventId envelope source _ => ⟨eventId, envelope, 0, some source⟩

end Intake

/-- What a delivery has decided to put out. -/
inductive Verdict
  | tick (event : RawEvent) (quote : Quote) (price : Float) (backfilled : Bool)
  | deadLetter (error : ContractError)

/-- A record for one of the outputs. -/
inductive Output
  | tick (tick : CanonicalTick)
  | deadLetter (letter : DeadLetter)

/-- The output a record is for. -/
def Output.kind : Output → OutputKind
  | tick _ => .normalized
  | deadLetter _ => .deadLetter

/-- The key a record is published under. -/
def Output.key : Output → String
  | tick t => t.key
  | deadLetter letter => letter.key

/-- What a message came to. -/
inductive Outcome
  | published (output : Output)
  | duplicate

/-- The final state of a message. -/
def Outcome.state : Outcome → ProcessingState
  | published (.tick _) => .emitNormalized
  | published (.deadLetter _) => .emitDlq
  | duplicate => .duplicateDropped

/-- An output that was not accepted, and why. -/
structure PublishError where
  topic : String
  reason : String
  deriving DecidableEq, Repr

/-- The message about an output that was not accepted. -/
def PublishError.message (e : PublishError) : String :=
  "failed to publish to " ++ e.topic ++ ": " ++ e.reason

/-- What all deliveries share: the guard, the clocks, the number of identifiers made so far,
the measurements, and the states that were logged. The monotonic clock counts milliseconds,
the wall clock microseconds since the Unix epoch. -/
structure Shared where
  guard : Guard
  instant : Instant
  wall : Int64
  serial : Nat
  ledger : Ledger
  trail : List (String × ProcessingState)

namespace Shared

/-- Log a state of an event. -/
def trace (s : Shared) (id : String) (state : ProcessingState) : Shared :=
  { s with trail := s.trail ++ [(id, state)] }

/-- Change the measurements. -/
def measure (s : Shared) (change : Ledger → Ledger) : Shared := { s with ledger := change s.ledger }

/-- Ask the guard whether an id is live. -/
def seen (s : Shared) (id : String) : Bool × Shared :=
  let (live, guard) := s.guard.seen s.instant id
  (live, { s with guard := guard })

/-- Mark an id on the guard unless it is live. -/
def tryMark (s : Shared) (id : String) : Bool × Shared :=
  let (marked, guard) := s.guard.tryMark s.instant id
  (marked, { s with guard := guard })

/-- Withdraw the mark of an id. -/
def forget (s : Shared) (id : String) : Shared := { s with guard := s.guard.forget id }

/-- Drop the expired entries of the guard, and measure it. -/
def sweep (s : Shared) : Nat × Shared :=
  let (removed, guard) := s.guard.sweep s.instant
  (removed, { s with guard := guard })

end Shared

/-- A delivery: what the message is taken for, whether a missing price can be looked up, and
when it began. -/
structure Delivery where
  intake : Intake
  backfills : Bool
  started : Instant

namespace Delivery

/-- The id of the message. -/
def id (d : Delivery) : String := d.intake.id

/-- How a delivery goes on after the guard was asked. -/
inductive Course
  /-- The id is live; there is nothing to put out. -/
  | drop
  /-- The store is asked for a price, since an instant. -/
  | ask (event : RawEvent) (quote : Quote) (since : Instant)
  /-- It is clear what to put out. -/
  | settle (verdict : Verdict)

/-- Count the outcome of a finished message and the time it took. -/
def finish (d : Delivery) (outcome : Outcome) (s : Shared) : Shared :=
  s.measure fun ledger =>
    (ledger.count (.outcomes outcome.state)).record .processingDuration (s.instant - d.started)

/-- The state of an event whose quote breaks the contract. -/
def breachState : ContractError → ProcessingState
  | .schema _ => .schemaInvalid
  | .violation _ _ => .contractViolation

/-- Validate the quote of an event and decide how to go on. -/
def assess (d : Delivery) (event : RawEvent) (s : Shared) : Course × Shared :=
  let s := s.trace d.id .parsing
  match validate event with
  | .error error => (.settle (.deadLetter error), s.trace d.id (breachState error))
  | .ok quote =>
    let s := s.trace d.id .fieldCheck
    match quote.price with
    | some price => (.settle (.tick event quote price false), s.trace d.id .ready)
    | none =>
      if d.backfills then (.ask event quote s.instant, s.trace d.id .backfillLookup)
      else
        (.settle (.deadLetter
          (.violation .missingPrice "price is absent and backfill is disabled")), s)

/-- Ask the guard whether the id is live, and decide how to go on. -/
def check (d : Delivery) (s : Shared) : Course × Shared :=
  match d.intake with
  | .event event _ =>
    match (s.trace d.id .received).seen d.id with
    | (true, s) => (.drop, s)
    | (false, s) => d.assess event s
  | .stray _ _ _ reason =>
    match s.seen d.id with
    | (true, s) => (.drop, s)
    | (false, s) =>
      (.settle (.deadLetter (.schema ("message is not a raw event: " ++ reason))), s)

/-- Take the answer of the store to a question asked at an instant. -/
def answer (d : Delivery) (event : RawEvent) (quote : Quote) (since : Instant)
    (answer : LookupAnswer) (s : Shared) : Verdict × Shared :=
  let s := s.measure fun ledger =>
    (ledger.record .backfillDuration (s.instant - since)).count
      (.backfillLookups (lookupResult answer))
  match lookupPrice quote.instrumentId answer with
  | .ok price => (.tick event quote price true, s.trace d.id .fallbackApplied)
  | .error error => (.deadLetter error, s)

/-- The record for a verdict. A dead letter gets an identifier of its own. -/
def record (d : Delivery) (s : Shared) : Verdict → Output × Shared
  | .tick event quote price backfilled => (.tick (quote.tick event price backfilled s.wall), s)
  | .deadLetter error =>
    let id := Uuid.make s.wall.toInt s.serial
    (.deadLetter (.route error d.intake.context s.wall id), { s with serial := s.serial + 1 })

/-- Mark the id and make the record to put out. There is none if another delivery has marked
the id meanwhile. -/
def commit (d : Delivery) (verdict : Verdict) (s : Shared) : Option Output × Shared :=
  match (s.trace d.id .dedupCheck).tryMark d.id with
  | (false, s) => (none, s)
  | (true, s) =>
    let (output, s) := d.record s verdict
    (some output, s)

/-- The sink has accepted the output: count it. -/
def accept (d : Delivery) (verdict : Verdict) (output : Output) (s : Shared) : Shared :=
  let s := match verdict with
    | .tick .. => s
    | .deadLetter error =>
      s.measure fun ledger => ledger.count (.deadLetters error.code error.issue)
  d.finish (.published output) s

/-- The sink has failed: withdraw the mark and count the failure. -/
def withdraw (d : Delivery) (output : Output) (s : Shared) : Shared :=
  (s.forget d.id).measure fun ledger => ledger.count (.publishErrors output.kind)

end Delivery

/-! ## A delivery without interruption -/

/-- What lies around a delivery: a historical store that may be asked, and a sink. Asking the
store takes time, in which the shared state may change. -/
structure Surroundings (σ : Type) where
  backfills : Bool
  lookup : String → Shared → σ → LookupAnswer × Shared × σ
  publish : Output → σ → Except PublishError Unit × σ

namespace Delivery

variable {σ : Type}

/-- Bring a verdict to the sink. -/
def emit (d : Delivery) (around : Surroundings σ) (verdict : Verdict) (s : Shared) (x : σ) :
    Except PublishError Outcome × Shared × σ :=
  match d.commit verdict s with
  | (none, s) => (.ok .duplicate, d.finish .duplicate s, x)
  | (some output, s) =>
    match around.publish output x with
    | (.ok (), x) => (.ok (.published output), d.accept verdict output s, x)
    | (.error e, x) => (.error e, d.withdraw output s, x)

/-- Bring a message to its output, from the first step to the last. -/
def run (d : Delivery) (around : Surroundings σ) (s : Shared) (x : σ) :
    Except PublishError Outcome × Shared × σ :=
  match d.check s with
  | (.drop, s) => (.ok .duplicate, d.finish .duplicate s, x)
  | (.settle verdict, s) => d.emit around verdict s x
  | (.ask event quote since, s) =>
    let (reply, s, x) := around.lookup quote.instrumentId s x
    let (verdict, s) := d.answer event quote since reply s
    d.emit around verdict s x

end Delivery

/-- Process one message. -/
def process {σ : Type} (around : Surroundings σ) (intake : Intake) (s : Shared) (x : σ) :
    Except PublishError Outcome × Shared × σ :=
  Delivery.run ⟨intake, around.backfills, s.instant⟩ around s x

end MarketFeed
