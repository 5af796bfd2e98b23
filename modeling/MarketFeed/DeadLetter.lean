import MarketFeed.Contract
import MarketFeed.Event
import MarketFeed.Uuid

/-!
# Dead letters

A dead letter records an event that could not become a tick: what is wrong with it, where it
was read, and as much of its identity as could be recovered. An event without an id is known
by the place it was read from.
-/

namespace MarketFeed

open Json

/-- The place of a message on its input topic. -/
structure Coordinates where
  topic : String
  partition : Int32
  offset : Int64
  deriving DecidableEq, Repr

/-- The text of a place, which serves as the id of an event that has none. -/
def Coordinates.text (c : Coordinates) : String :=
  c.topic ++ ":" ++ Number.intText c.partition.toInt ++ ":" ++ Number.intText c.offset.toInt

/-- What is known about a failure. -/
structure DeadLetterMetadata where
  issue : String
  detail : String
  retryCount : UInt32
  source : Option Coordinates
  deriving DecidableEq, Repr

/-- The record of an event that failed. -/
structure DeadLetter where
  id : String
  eventId : String
  code : ErrorCode
  metadata : DeadLetterMetadata
  envelope : Option Envelope
  failedAt : Int64
  deriving DecidableEq, Repr

/-- Failures of one event belong together. -/
def DeadLetter.key (letter : DeadLetter) : String := letter.eventId

/-- Everything known about a message when it fails. -/
structure FailureContext where
  eventId : String
  envelope : Option Envelope
  retryCount : UInt32
  source : Option Coordinates

/-- The dead letter for a breach. Its code and issue are those of the breach. -/
def DeadLetter.route (error : ContractError) (context : FailureContext) (failedAt : Int64)
    (id : Uuid) : DeadLetter where
  id := id.text
  eventId := context.eventId
  code := error.code
  metadata := ⟨error.issue.code, error.detail, context.retryCount, context.source⟩
  envelope := context.envelope
  failedAt := failedAt

/-! ## Reading -/

/-- The fields of a place. -/
def Coordinates.fields : Fields [String, Int32, Int64] :=
  .cons { key := "topic", read := readString } <|
  .cons { key := "partition", read := readInt32 } <|
  .cons { key := "offset", read := readInt64 } .nil

/-- Read a place. -/
def Coordinates.read (tree : Tree) : Except Fault Coordinates := do
  let (topic, partition, offset, _) ← Coordinates.fields.read tree
  pure ⟨topic, partition, offset⟩

/-- The fields of what is known about a failure. -/
def DeadLetterMetadata.fields : Fields [String, String, UInt32, Option Coordinates] :=
  .cons { key := "issues", read := readString } <|
  .cons { key := "detail", read := readString } <|
  .cons { key := "retry_count", read := readUInt32, absence := .default 0 } <|
  .cons { key := "source", read := readNullable Coordinates.read, absence := .default none } .nil

/-- Read what is known about a failure. -/
def DeadLetterMetadata.read (tree : Tree) : Except Fault DeadLetterMetadata := do
  let (issue, detail, retryCount, source, _) ← DeadLetterMetadata.fields.read tree
  pure ⟨issue, detail, retryCount, source⟩

/-- The fields of a dead letter. -/
def DeadLetter.fields : Fields [String, String, ErrorCode, DeadLetterMetadata,
    Option Envelope, Int64] :=
  .cons { key := "dead_letter_id", read := readString } <|
  .cons { key := "failed_event_id", read := readString } <|
  .cons { key := "error_code", read := readWord ErrorCode.ofWord? } <|
  .cons { key := "metadata", read := DeadLetterMetadata.read } <|
  .cons { key := "envelope", read := readNullable Envelope.read, absence := .ofObject none } <|
  .cons { key := "failed_at", read := readInt64 } .nil

/-- Read a dead letter. -/
def DeadLetter.read (tree : Tree) : Except Fault DeadLetter := do
  let (id, eventId, code, metadata, envelope, failedAt, _) ← DeadLetter.fields.read tree
  pure ⟨id, eventId, code, metadata, envelope, failedAt⟩

/-- Read the bytes of a message as a dead letter. -/
def DeadLetter.decode (bytes : Bytes) : Except Fault DeadLetter := Json.decode DeadLetter.read bytes

/-! ## Writing -/

/-- A place as a value. -/
def Coordinates.value (c : Coordinates) : Value :=
  .object [("topic", .string c.topic), ("partition", .integer c.partition.toInt),
    ("offset", .integer c.offset.toInt)]

/-- What is known about a failure as a value. -/
def DeadLetterMetadata.value (m : DeadLetterMetadata) : Value :=
  .object ([("issues", .string m.issue), ("detail", .string m.detail),
    ("retry_count", .integer m.retryCount.toNat)] ++
    optionalMember "source" Coordinates.value m.source)

/-- A dead letter as a value. -/
def DeadLetter.value (letter : DeadLetter) : Value :=
  .object [("dead_letter_id", .string letter.id), ("failed_event_id", .string letter.eventId),
    ("error_code", .string letter.code.word), ("metadata", letter.metadata.value),
    ("envelope", .nullable Envelope.value letter.envelope),
    ("failed_at", .integer letter.failedAt.toInt)]

/-- The bytes a dead letter is published as. -/
def DeadLetter.encode (letter : DeadLetter) : Bytes := utf8 letter.value.text

end MarketFeed
