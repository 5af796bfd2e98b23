import MarketFeed.Broker.Error
import MarketFeed.Pipeline.Delivery

/-!
# Where outputs go

Ticks and dead letters go to a topic each, as the compact text of the record, under the key
of the record. The record is handed to the producer, and the output counts as published only if
the broker acknowledges it: the producer may not take the record, it may report that the record
was not delivered, or drop it without a report.
-/

namespace MarketFeed

/-- The topics of the outputs. -/
structure OutputTopics where
  ticks : String
  deadLetters : String

/-- The topic of an output. -/
def OutputTopics.topic (topics : OutputTopics) : OutputKind → String
  | .normalized => topics.ticks
  | .deadLetter => topics.deadLetters

/-- A record as it is handed to the broker. -/
structure Record where
  topic : String
  key : String
  payload : String
  deriving DecidableEq, Repr

/-- The compact text of an output. -/
def Output.text : Output → String
  | tick t => t.value.text
  | deadLetter letter => letter.value.text

/-- The record for an output. -/
def OutputTopics.record (topics : OutputTopics) (output : Output) : Record :=
  ⟨topics.topic output.kind, output.key, output.text⟩

/-- What becomes of a record that is handed to the producer. -/
inductive SendReport
  /-- The producer does not take it. -/
  | refused (e : BrokerError)
  /-- The producer has taken it, and reports that it was not delivered. -/
  | failed (e : BrokerError)
  /-- The producer has taken it, and drops it without a report. -/
  | lost
  /-- The broker has acknowledged it. -/
  | acknowledged
  deriving DecidableEq, Repr

/-- Why a record was not delivered, if it was not. -/
def SendReport.failure? : SendReport → Option BrokerError
  | refused e => some e
  | failed e => some e
  | lost => some .canceled
  | acknowledged => none

/-- A producer: it takes a record and reports what became of it. -/
structure Producer (σ : Type) where
  send : Record → σ → SendReport × σ

/-- Publish an output: hand its record to the producer, and wait for the report. -/
def OutputTopics.publish {σ : Type} (topics : OutputTopics) (producer : Producer σ)
    (output : Output) (x : σ) : Except PublishError Unit × σ :=
  let record := topics.record output
  let (report, x) := producer.send record x
  match report.failure? with
  | none => (.ok (), x)
  | some e => (.error ⟨record.topic, e.message⟩, x)

end MarketFeed
