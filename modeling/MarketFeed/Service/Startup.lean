import MarketFeed.Backfill.Store
import MarketFeed.Broker.Error
import MarketFeed.Broker.Outlet
import MarketFeed.Broker.Settings
import MarketFeed.Config.Environment

/-!
# Starting the service

First the producer is created, and asked for the state of the brokers, so that a wrong
address is found before the first record; then the consumer is created and subscribed to the
input topic; last comes the historical store, if prices are to be looked up there. The first
failure ends the start. Before all that, a size of the producer's queue that is too large for
the producer's settings aborts it.
-/

namespace MarketFeed

/-- Why the service does not start. -/
inductive StartupError
  /-- The size of the producer's queue has too many bits. The program aborts. -/
  | overflow
  | producer (e : BrokerError)
  | consumer (e : BrokerError)
  | store (e : BackfillError)

/-- What failed, and its causes. -/
def StartupError.chain : StartupError → List String
  | overflow => ["attempt to multiply with overflow"]
  | producer e => "failed to create Kafka producer" :: e.chain
  | consumer e => "failed to create Kafka consumer" :: e.chain
  | store e => ["failed to build backfill client", e.message]

/-- How the clients of the broker are created. -/
structure ClientFactory (σ : Type) where
  createProducer : ClientSettings → ExceptT BrokerError (StateM σ) Unit
  fetchMetadata : Nat → ExceptT BrokerError (StateM σ) Unit
  createConsumer : ClientSettings → ExceptT BrokerError (StateM σ) Unit
  subscribe : List String → ExceptT BrokerError (StateM σ) Unit

/-- How long the brokers may take to tell their state, in milliseconds. -/
def metadataTimeout : Nat := 15000

namespace Config

/-- The topics the outputs go to. -/
def outputTopics (c : Config) : OutputTopics := ⟨c.outputTopic, c.deadLetterTopic⟩

/-- The historical store where missing prices are looked up. -/
def store (c : Config) : Except BackfillError (Option HistoricalStore) :=
  match c.backfillUrl, c.backfillEnabled with
  | some url, true => (HistoricalStore.ofUrl url c.backfillDeadline).map some
  | _, _ => .ok none

/-- Start the service. -/
def start {σ : Type} (c : Config) (factory : ClientFactory σ) :
    ExceptT StartupError (StateM σ) (Option HistoricalStore) := do
  let kibibytes ← liftExcept (c.broker.queueKibibytes?.elim (.error .overflow) .ok)
  ExceptT.adapt StartupError.producer do
    factory.createProducer (c.broker.producerSettings kibibytes)
    factory.fetchMetadata metadataTimeout
  ExceptT.adapt StartupError.consumer do
    factory.createConsumer c.consumerSettings
    factory.subscribe [c.inputTopic]
  liftExcept (c.store.mapError StartupError.store)
where
  /-- Fail as a computation has failed. -/
  liftExcept {α : Type} (e : Except StartupError α) : ExceptT StartupError (StateM σ) α :=
    ExceptT.mk (pure e)

end Config

/-! ## Failures of the program -/

/-- Why the program ends with a failure. -/
inductive ProgramError
  | unreadable (e : UnreadableVariable)
  | invalid (b : Config.Breach)
  | startup (e : StartupError)
  | loop (e : BrokerError)

/-- The code that the process ends with. -/
def ProgramError.exitCode : ProgramError → UInt32
  | startup .overflow => 101
  | _ => 1

/-- What failed, and its causes. -/
def ProgramError.chain : ProgramError → List String
  | unreadable e => ["failed to load configuration", e.message]
  | invalid b => ["invalid configuration", b.message]
  | startup e => e.chain
  | loop e => "consumer loop failed" :: e.chain

/-- Write a text behind a margin; further lines of it have blanks in place of the margin. -/
def indented (margin : String) (text : String) : String :=
  margin ++ String.ofList (text.toList.flatMap fun c =>
    if c = '\n' then '\n' :: List.replicate margin.length ' ' else [c])

/-- The causes of a failure, with their numbers if there are several. -/
def causeLines : List String → List String
  | [] => []
  | [cause] => [indented "    " cause]
  | causes =>
    causes.zipIdx.map fun (cause, n) => indented ("    " ++ Number.natText n ++ ": ") cause

/-- What the program writes when it ends with a failure. -/
def ProgramError.report (e : ProgramError) : String :=
  match e.chain with
  | [] => ""
  | what :: causes =>
    "Error: " ++ what ++ "\n" ++
      (if causes.isEmpty then ""
       else "\nCaused by:\n" ++ String.join ((causeLines causes).map (· ++ "\n")))

/-- The configuration with which the program starts. -/
def Config.load (env : Environment) : Except ProgramError Config :=
  match Config.read env with
  | .error e => .error (.unreadable e)
  | .ok c =>
    match c.breach? with
    | some b => .error (.invalid b)
    | none => .ok c

end MarketFeed
