import MarketFeed.Json.Word

/-!
# Raw events

A raw event is what a connector publishes: an envelope that identifies it and a payload with
the quote as the source wrote it, an encoded blob. The envelope goes unchanged through all
stages. Connectors may put keys of their own beside the known metadata; they are kept.
-/

namespace MarketFeed

open Json

/-- The identity of an event. Instants count microseconds since the Unix epoch. -/
structure Envelope where
  eventId : String
  traceId : String
  schemaVersion : String
  tenantId : String
  producer : String
  occurredAt : Int64
  ingestedAt : Int64
  deriving DecidableEq, Repr

/-- What a connector says about an event besides the quote. -/
structure RawMetadata where
  instrumentId : Option String
  retryCount : UInt32
  extra : List (String × Value)

/-- The quote as the source wrote it, and where it comes from. -/
structure RawPayload where
  sourceSystem : String
  market : String
  symbol : String
  sequence : UInt64
  receivedAt : Int64
  blob : Option String
  encoding : Option String
  metadata : RawMetadata

/-- An event as a connector publishes it. -/
structure RawEvent where
  envelope : Envelope
  payload : RawPayload

/-- The id that identifies the event. -/
def RawEvent.id (event : RawEvent) : String := event.envelope.eventId

/-! ## Reading -/

/-- The fields of an envelope. -/
def Envelope.fields : Fields [String, String, String, String, String, Int64, Int64] :=
  .cons { key := "event_id", read := readString } <|
  .cons { key := "trace_id", read := readString } <|
  .cons { key := "schema_version", read := readString } <|
  .cons { key := "tenant_id", read := readString } <|
  .cons { key := "producer", read := readString } <|
  .cons { key := "occurred_at", read := readInt64 } <|
  .cons { key := "ingested_at", read := readInt64 } .nil

/-- Read an envelope. -/
def Envelope.read (tree : Tree) : Except Fault Envelope := do
  let (eventId, traceId, schemaVersion, tenantId, producer, occurredAt, ingestedAt, _) ←
    Envelope.fields.read tree
  pure ⟨eventId, traceId, schemaVersion, tenantId, producer, occurredAt, ingestedAt⟩

/-- The known keys of metadata. -/
def RawMetadata.fields : Fields [Option String, UInt32] :=
  .cons { key := "instrument_id", read := readNullable readString, absence := .default none } <|
  .cons { key := "retry_count", read := readUInt32, absence := .default 0 } .nil

/-- How deep containers may be nested below the metadata of an event: a document may have
127 levels, and the event, its payload and the metadata are three of them. -/
def RawMetadata.room : Nat := 124

/-- Read metadata. -/
def RawMetadata.read (tree : Tree) : Except Fault RawMetadata := do
  let ((instrumentId, retryCount, _), extra) ← RawMetadata.fields.readOpen RawMetadata.room tree
  pure ⟨instrumentId, retryCount, extra⟩

/-- The fields of a payload; all have defaults. -/
def RawPayload.fields : Fields [String, String, String, UInt64, Int64, Option String,
    Option String, RawMetadata] :=
  .cons { key := "source_system", read := readString, absence := .default "" } <|
  .cons { key := "market", read := readString, absence := .default "" } <|
  .cons { key := "symbol", read := readString, absence := .default "" } <|
  .cons { key := "sequence", read := readUInt64, absence := .default 0 } <|
  .cons { key := "received_at", read := readInt64, absence := .default 0 } <|
  .cons { key := "raw_payload", read := readNullable readString, absence := .default none } <|
  .cons { key := "encoding", read := readNullable readString, absence := .default none } <|
  .cons { key := "metadata", read := RawMetadata.read, absence := .default ⟨none, 0, []⟩ } .nil

/-- Read a payload. -/
def RawPayload.read (tree : Tree) : Except Fault RawPayload := do
  let (sourceSystem, market, symbol, sequence, receivedAt, blob, encoding, metadata, _) ←
    RawPayload.fields.read tree
  pure ⟨sourceSystem, market, symbol, sequence, receivedAt, blob, encoding, metadata⟩

/-- The fields of an event. -/
def RawEvent.fields : Fields [Envelope, RawPayload] :=
  .cons { key := "envelope", read := Envelope.read } <|
  .cons { key := "payload", read := RawPayload.read } .nil

/-- Read an event. -/
def RawEvent.read (tree : Tree) : Except Fault RawEvent := do
  let (envelope, payload, _) ← RawEvent.fields.read tree
  pure ⟨envelope, payload⟩

/-- Read the bytes of a message as an event. -/
def RawEvent.decode (bytes : Bytes) : Except Fault RawEvent := Json.decode RawEvent.read bytes

/-! ## What can be recovered of a message that is no event -/

/-- A record of one field. -/
def readOnly {α : Type} (field : RecordField α) (tree : Tree) : Except Fault α := do
  let (a, _) ← (Fields.cons field .nil).read tree
  pure a

/-- Read the id out of an envelope, whatever else it holds. -/
def Envelope.readId (tree : Tree) : Except Fault String :=
  readOnly { key := "event_id", read := readString } tree

/-- The id of the event that a message seems to carry, if it is not empty. -/
def probeEventId (bytes : Bytes) : Option String :=
  match Json.decode (readOnly { key := "envelope", read := Envelope.readId }) bytes with
  | .ok id => if id.isEmpty then none else some id
  | .error _ => none

/-- The envelope that a message seems to carry. -/
def probeEnvelope (bytes : Bytes) : Option Envelope :=
  (Json.decode (readOnly { key := "envelope", read := Envelope.read }) bytes).toOption

/-! ## Writing -/

/-- An envelope as a value. -/
def Envelope.value (e : Envelope) : Value :=
  .object [("event_id", .string e.eventId), ("trace_id", .string e.traceId),
    ("schema_version", .string e.schemaVersion), ("tenant_id", .string e.tenantId),
    ("producer", .string e.producer), ("occurred_at", .integer e.occurredAt.toInt),
    ("ingested_at", .integer e.ingestedAt.toInt)]

/-- Metadata as a value: the keys of the connector stand beside the known ones. -/
def RawMetadata.value (m : RawMetadata) : Value :=
  .object (optionalMember "instrument_id" .string m.instrumentId ++
    ("retry_count", .integer m.retryCount.toNat) :: m.extra)

/-- A payload as a value. -/
def RawPayload.value (p : RawPayload) : Value :=
  .object ([("source_system", .string p.sourceSystem), ("market", .string p.market),
    ("symbol", .string p.symbol), ("sequence", .integer p.sequence.toNat),
    ("received_at", .integer p.receivedAt.toInt)] ++
    optionalMember "raw_payload" .string p.blob ++
    optionalMember "encoding" .string p.encoding ++
    [("metadata", p.metadata.value)])

/-- An event as a value. -/
def RawEvent.value (event : RawEvent) : Value :=
  .object [("envelope", event.envelope.value), ("payload", event.payload.value)]

/-- The bytes an event is published as. -/
def RawEvent.encode (event : RawEvent) : Bytes := utf8 event.value.text

end MarketFeed
