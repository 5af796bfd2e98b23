import MarketFeed.Number.Digits

/-!
# The configuration of the service

The configuration names the brokers, the topics and the historical store, and sets how much
is remembered and how long things may take. Each setting has a default. A configuration is
held to a few rules before the service starts; the first rule that is broken is reported.
-/

namespace MarketFeed

/-- How the brokers are reached, and how the producer gathers and sends records. -/
structure BrokerConfig where
  hosts : String := "localhost:9092"
  tls : Bool := false
  lingerMillis : UInt32 := 20
  queueMebibytes : UInt32 := 400
  queueMessages : UInt32 := 10000000
  messageTimeoutMillis : UInt32 := 20000
  compression : String := "snappy"
  gracefulShutdownSeconds : UInt64 := 10

/-- All settings of the service. -/
structure Config where
  broker : BrokerConfig := {}
  group : String := "tick-normalizer"
  offsetReset : String := "earliest"
  autoCommitMillis : UInt32 := 5000
  inputTopic : String := "market_ticks_raw"
  outputTopic : String := "market_ticks_normalized"
  deadLetterTopic : String := "market_ticks_dead_letter"
  backfillEnabled : Bool := true
  backfillUrl : Option String := none
  backfillDeadlineMillis : Option UInt64 := none
  guardTtlSeconds : UInt64 := 3600
  guardMaxEntries : UInt64 := 1000000
  sweepSeconds : UInt64 := 60
  queueSize : UInt64 := 1000
  retryMillis : UInt64 := 1000
  shutdownSeconds : UInt64 := 30
  bindHost : String := "0.0.0.0"
  bindPort : UInt16 := 3302

namespace Config

/-- The address the status server listens at. -/
def bindAddress (c : Config) : String := c.bindHost ++ ":" ++ Number.natText c.bindPort.toNat

/-! Spans of time, in milliseconds. -/

/-- A span of whole seconds in milliseconds. -/
def millisOfSeconds (seconds : UInt64) : Nat := seconds.toNat * 1000

/-- How long the guard remembers an id. -/
def guardTtl (c : Config) : Nat := millisOfSeconds c.guardTtlSeconds

/-- The time from one sweep of the guard to the next. -/
def sweepInterval (c : Config) : Nat := millisOfSeconds c.sweepSeconds

/-- How long a lookup may take. -/
def backfillDeadline (c : Config) : Option Nat := c.backfillDeadlineMillis.map UInt64.toNat

/-- The pause before a failed message is tried again. -/
def retryBackoff (c : Config) : Nat := c.retryMillis.toNat

/-- How long the workers may take to stop. -/
def shutdownTimeout (c : Config) : Nat := millisOfSeconds c.shutdownSeconds

/-- How long the producer may take to send what it still holds. -/
def producerShutdown (c : Config) : Nat := millisOfSeconds c.broker.gracefulShutdownSeconds

/-! ## Rules -/

/-- The rules for a configuration, by what breaks them. -/
inductive Breach
  | missingBackfillUrl
  | notPositive (name : String)
  | sharedTopic (topic first second : String)
  deriving DecidableEq, Repr

/-- The message about a configuration that breaks a rule. -/
def Breach.message : Breach → String
  | missingBackfillUrl => "BACKFILL_ENABLED is set but BACKFILL_URL is not"
  | notPositive name => name ++ " must be greater than zero"
  | sharedTopic topic first second =>
    topic ++ " is used for both " ++ first ++ " and " ++ second

/-- The settings that must be positive, with the names of their variables. -/
def bounds (c : Config) : List (String × UInt64) :=
  [("IDEMPOTENCY_TTL_SECONDS", c.guardTtlSeconds),
   ("IDEMPOTENCY_MAX_ENTRIES", c.guardMaxEntries),
   ("PARTITION_QUEUE_SIZE", c.queueSize),
   ("IDEMPOTENCY_SWEEP_INTERVAL_SECS", c.sweepSeconds),
   ("SHUTDOWN_TIMEOUT_SECS", c.shutdownSeconds)]

/-- The topics, with the names of their variables. -/
def topics (c : Config) : List (String × String) :=
  [("INPUT_TOPIC", c.inputTopic), ("OUTPUT_TOPIC", c.outputTopic),
   ("DEAD_LETTER_TOPIC", c.deadLetterTopic)]

/-- The first two topics of a list that are the same. -/
def sharedTopic? : List (String × String) → Option Breach
  | [] => none
  | (first, topic) :: rest =>
    match rest.find? fun other => other.2 = topic with
    | some (second, _) => some (.sharedTopic topic first second)
    | none => sharedTopic? rest

/-- The first rule that a configuration breaks. -/
def breach? (c : Config) : Option Breach :=
  if c.backfillEnabled && c.backfillUrl.isNone then some .missingBackfillUrl
  else
    match c.bounds.find? fun bound => bound.2 = 0 with
    | some (name, _) => some (.notPositive name)
    | none => sharedTopic? c.topics

end Config

end MarketFeed
