import MarketFeed.Broker.Error
import MarketFeed.Broker.Outlet
import MarketFeed.Broker.Settings

/-!
# A broker for rehearsals

The broker writes down what it is asked. What becomes of the next records can be set: they
are refused when they are handed over, reported later to have failed, or lost without a
report; only a record that is reported as delivered counts as published. It can also be set
to refuse some offsets, and to fail when it is to flush or to commit.
-/

namespace MarketFeed.Rehearsal

/-- What becomes of a record handed to the broker. -/
inductive Fate
  | refused (code : BrokerCode)
  | failed (code : BrokerCode)
  | dropped
  deriving DecidableEq, Repr

/-- What is reported of a record that met its fate. -/
def Fate.report : Fate → SendReport
  | refused code => .refused (.messageProduction code)
  | failed code => .failed (.messageProduction code)
  | dropped => .lost

/-- What the broker was asked. -/
inductive BrokerEvent
  | producerCreated (settings : ClientSettings)
  | metadataFetched (millis : Nat)
  | consumerCreated (settings : ClientSettings)
  | subscribed (topics : List String)
  | produced (record : Record) (report : SendReport)
  | offsetStored (place : Coordinates) (stored : Bool)
  | flushed (millis : Nat) (failure : Option BrokerError)
  | committed (places : List Coordinates) (failure : Option BrokerError)
  | unsubscribed

/-- What the broker fails with when it is to flush and to commit. -/
structure ClosingFaults where
  flush : Option BrokerCode
  commit : Option BrokerCode

/-- The broker: the topics of the outputs, the fates of the next records in runs, the offsets
it refuses, its faults in closing, what it was asked so far, and the outputs published so far. -/
structure Broker where
  topics : OutputTopics
  fates : List (Fate × Nat)
  refused : List Int64
  closing : ClosingFaults
  log : List BrokerEvent
  published : List Output

namespace Broker

/-- A broker that was not asked anything. -/
def new (topics : OutputTopics) : Broker := ⟨topics, [], [], ⟨none, none⟩, [], []⟩

/-- Write down what the broker is asked. -/
def note (broker : Broker) (event : BrokerEvent) : Broker :=
  { broker with log := broker.log ++ [event] }

/-- Take the fate of the next record off the runs of fates. -/
def nextFate : List (Fate × Nat) → Option Fate × List (Fate × Nat)
  | [] => (none, [])
  | (_, 0) :: rest => nextFate rest
  | (fate, n + 1) :: rest => (some fate, (fate, n) :: rest)

/-- Let the next records meet a fate, and no other. -/
def ordain (broker : Broker) (fate : Fate) (count : Nat) : Broker :=
  { broker with fates := [(fate, count)] }

/-- Let as many records meet a fate, after those whose fate is set. -/
def ordainNext (broker : Broker) (fate : Fate) (count : Nat) : Broker :=
  { broker with fates := broker.fates ++ [(fate, count)] }

/-- Take a record and report on it. -/
def send (record : Record) (broker : Broker) : SendReport × Broker :=
  let (fate, fates) := nextFate broker.fates
  let report := match fate with
    | none => .acknowledged
    | some fate => fate.report
  (report, { broker with fates := fates }.note (.produced record report))

/-- The producer that hands records to the broker. -/
def producer : Producer Broker := ⟨send⟩

/-- Publish an output. -/
def publish (output : Output) (broker : Broker) : Except PublishError Unit × Broker :=
  match broker.topics.publish producer output broker with
  | (.ok (), broker) => (.ok (), { broker with published := broker.published ++ [output] })
  | (.error e, broker) => (.error e, broker)

/-- Store an offset. -/
def store (place : Coordinates) (broker : Broker) : Bool × Broker :=
  let stored := !broker.refused.contains place.offset
  (stored, broker.note (.offsetStored place stored))

/-- The event ids of the ticks published so far. -/
def tickIds (broker : Broker) : List String :=
  broker.published.filterMap fun
    | .tick t => some t.envelope.eventId
    | .deadLetter _ => none

/-- The event ids of the dead letters published so far. -/
def deadLetterIds (broker : Broker) : List String :=
  broker.published.filterMap fun
    | .tick _ => none
    | .deadLetter letter => some letter.eventId

/-- The offsets stored so far, in order. -/
def storedPlaces (broker : Broker) : List Coordinates :=
  broker.log.filterMap fun
    | .offsetStored place true => some place
    | _ => none

end Broker

/-- Two places are in one partition. -/
def samePartition (a b : Coordinates) : Bool := a.topic = b.topic && a.partition = b.partition

/-- The order of partitions: by topic, then by number. -/
def partitionBefore (a b : Coordinates) : Bool :=
  a.topic < b.topic || (a.topic = b.topic && a.partition < b.partition)

/-- Put a place among places of other partitions in order, in place of the one of its own. -/
def putPlace (place : Coordinates) : List Coordinates → List Coordinates
  | [] => [place]
  | p :: rest =>
    if samePartition place p then place :: rest
    else if partitionBefore place p then place :: p :: rest
    else p :: putPlace place rest

/-- The last offset stored in each partition, in the order of partitions. -/
def Broker.positions (broker : Broker) : List Coordinates :=
  broker.storedPlaces.foldl (fun places place => putPlace place places) []

/-- Flush the producer, for at most so long, and tell why that failed, if it did. -/
def Broker.flush (millis : Nat) (broker : Broker) : Option BrokerError × Broker :=
  let failure := broker.closing.flush.map BrokerError.flush
  (failure, broker.note (.flushed millis failure))

/-- Commit the stored offsets, and tell why that failed, if it did. There must be some. -/
def Broker.commit (broker : Broker) : Option BrokerError × Broker :=
  let places := broker.positions
  let code := if places.isEmpty then some .noOffset else broker.closing.commit
  let failure := code.map BrokerError.consumerCommit
  (failure, broker.note (.committed places failure))

end MarketFeed.Rehearsal
