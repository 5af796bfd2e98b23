import MarketFeed.Pipeline.Delivery

/-!
# Partition workers

The messages of a partition are finished one after the other, by a worker of their own. A
message is tried until it has come to an outcome; then the offset after it is stored, so that
a stored offset never passes a message that is not finished. When the service is to stop, a
worker leaves the messages it has not begun, and gives up the one it would have to try again.
-/

namespace MarketFeed

/-- A partition of an input topic. -/
structure Partition where
  topic : String
  number : Int32
  deriving DecidableEq, Repr

/-- The text of a partition. -/
def Partition.text (p : Partition) : String :=
  p.topic ++ ":" ++ Number.intText p.number.toInt

/-- A message of an input topic. -/
structure InputMessage where
  source : Coordinates
  payload : Bytes
  deriving DecidableEq, Repr

/-- The partition of a message. -/
def InputMessage.partition (m : InputMessage) : Partition := ⟨m.source.topic, m.source.partition⟩

/-- The place after a message: where its partition goes on when the message is finished. Only the
greatest of all offsets, which no broker gives, has none; the number wraps there, and a build
whose arithmetic is checked would stop the worker. -/
def InputMessage.next (m : InputMessage) : Coordinates :=
  { m.source with offset := m.source.offset + 1 }

/-- What lies around a worker: the surroundings of its deliveries, and where offsets are
stored, which can fail. -/
structure Workplace (σ : Type) extends Surroundings σ where
  store : Coordinates → σ → Bool × σ

/-- A worker: the message that it has begun and must try again, the messages that wait, and
whether it has ended. -/
structure Worker where
  begun : Option InputMessage
  queue : List InputMessage
  ended : Bool
  deriving DecidableEq, Repr

namespace Worker

variable {σ : Type}

/-- A worker without messages. -/
def idle : Worker := ⟨none, [], false⟩

/-- A worker that has ended. The messages it had are left. -/
def gone : Worker := ⟨none, [], true⟩

/-- All messages of a worker, the one it has begun first. -/
def messages (w : Worker) : List InputMessage := w.begun.toList ++ w.queue

/-- Store the offset after a finished message. A failure is only counted. -/
def storeNext (place : Workplace σ) (m : InputMessage) (s : Shared) (x : σ) : Shared × σ :=
  match place.store m.next x with
  | (true, x) => (s, x)
  | (false, x) => (s.measure fun ledger => ledger.count .offsetStoreErrors, x)

/-- Try to finish a message, and tell whether it is finished. -/
def attempt (place : Workplace σ) (m : InputMessage) (s : Shared) (x : σ) : Bool × Shared × σ :=
  match process place.toSurroundings (.ofMessage m.payload m.source) s x with
  | (.error _, s, x) => (false, s, x)
  | (.ok _, s, x) => (true, storeNext place m s x)

/-- Finish messages in order until an attempt fails; the message of that attempt and those
after it are left. -/
def serve (place : Workplace σ) : List InputMessage → Shared → σ →
    List InputMessage × Shared × σ
  | [], s, x => ([], s, x)
  | m :: rest, s, x =>
    match attempt place m s x with
    | (true, s, x) => serve place rest s x
    | (false, s, x) => (m :: rest, s, x)

/-- Let a worker run until it has to wait. It ends when the service is to stop, or when its
messages are finished and no more will come. -/
def run (place : Workplace σ) (stopping closed : Bool) (w : Worker) (s : Shared) (x : σ) :
    Worker × Shared × σ :=
  if w.ended || stopping then (gone, s, x)
  else
    match serve place w.messages s x with
    | ([], s, x) => (if closed then gone else idle, s, x)
    | (m :: rest, s, x) => (⟨some m, rest, false⟩, s, x)

end Worker

end MarketFeed
