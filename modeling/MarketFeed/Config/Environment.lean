import MarketFeed.Config
import MarketFeed.Number.Word

/-!
# Reading the configuration from the environment

A setting is read from the variable that bears its name; without one it has its default.
Texts are taken as they are, switches are `true` or `false`, and numbers must fit the width
of their setting. The first variable that cannot be read is reported, those of the brokers
before the others.
-/

namespace MarketFeed

/-- Variables and their values. -/
abbrev Environment := List (String × String)

/-- A variable whose value cannot be read. -/
structure UnreadableVariable where
  name : String
  deriving DecidableEq, Repr

/-- The message about a variable whose value cannot be read. -/
def UnreadableVariable.message (e : UnreadableVariable) : String :=
  "Failed to parse environment variable " ++ e.name

namespace Environment

/-- The value of a variable. -/
def value? (env : Environment) (name : String) : Option String :=
  (env.find? fun entry => entry.1 = name).map (·.2)

/-- Read a variable, which has a default. -/
def read {α : Type} (env : Environment) (name : String) (read? : String → Option α)
    (absent : α) : Except UnreadableVariable α :=
  match env.value? name with
  | none => .ok absent
  | some text =>
    match read? text with
    | some a => .ok a
    | none => .error ⟨name⟩

/-- Read a switch. -/
def readSwitch? : String → Option Bool
  | "true" => some true
  | "false" => some false
  | _ => none

end Environment

/-- The variables settings are read from. -/
def Config.variables : List String :=
  ["KAFKA_HOSTS", "KAFKA_TLS", "KAFKA_PRODUCER_LINGER_MS", "KAFKA_PRODUCER_QUEUE_MIB",
   "KAFKA_PRODUCER_QUEUE_MESSAGES", "KAFKA_MESSAGE_TIMEOUT_MS", "KAFKA_COMPRESSION_CODEC",
   "KAFKA_PRODUCER_GRACEFUL_SHUTDOWN_SECS", "KAFKA_CONSUMER_GROUP",
   "KAFKA_CONSUMER_OFFSET_RESET", "KAFKA_CONSUMER_AUTO_COMMIT_INTERVAL_MS", "INPUT_TOPIC",
   "OUTPUT_TOPIC", "DEAD_LETTER_TOPIC", "BACKFILL_ENABLED", "BACKFILL_URL",
   "BACKFILL_DEADLINE_MS", "IDEMPOTENCY_TTL_SECONDS", "IDEMPOTENCY_MAX_ENTRIES",
   "IDEMPOTENCY_SWEEP_INTERVAL_SECS", "PARTITION_QUEUE_SIZE", "PUBLISH_RETRY_BACKOFF_MS",
   "SHUTDOWN_TIMEOUT_SECS", "BIND_HOST", "BIND_PORT"]

open Environment Number

/-- Read the settings of the brokers. -/
def BrokerConfig.read (env : Environment) : Except UnreadableVariable BrokerConfig := do
  let absent : BrokerConfig := {}
  pure
    { hosts := ← env.read "KAFKA_HOSTS" some absent.hosts
      tls := ← env.read "KAFKA_TLS" readSwitch? absent.tls
      lingerMillis := ← env.read "KAFKA_PRODUCER_LINGER_MS" readUInt32? absent.lingerMillis
      queueMebibytes :=
        ← env.read "KAFKA_PRODUCER_QUEUE_MIB" readUInt32? absent.queueMebibytes
      queueMessages :=
        ← env.read "KAFKA_PRODUCER_QUEUE_MESSAGES" readUInt32? absent.queueMessages
      messageTimeoutMillis :=
        ← env.read "KAFKA_MESSAGE_TIMEOUT_MS" readUInt32? absent.messageTimeoutMillis
      compression := ← env.read "KAFKA_COMPRESSION_CODEC" some absent.compression
      gracefulShutdownSeconds :=
        ← env.read "KAFKA_PRODUCER_GRACEFUL_SHUTDOWN_SECS" readUInt64?
          absent.gracefulShutdownSeconds }

/-- Read all settings. -/
def Config.read (env : Environment) : Except UnreadableVariable Config := do
  let absent : Config := {}
  pure
    { broker := ← BrokerConfig.read env
      group := ← env.read "KAFKA_CONSUMER_GROUP" some absent.group
      offsetReset := ← env.read "KAFKA_CONSUMER_OFFSET_RESET" some absent.offsetReset
      autoCommitMillis :=
        ← env.read "KAFKA_CONSUMER_AUTO_COMMIT_INTERVAL_MS" readUInt32? absent.autoCommitMillis
      inputTopic := ← env.read "INPUT_TOPIC" some absent.inputTopic
      outputTopic := ← env.read "OUTPUT_TOPIC" some absent.outputTopic
      deadLetterTopic := ← env.read "DEAD_LETTER_TOPIC" some absent.deadLetterTopic
      backfillEnabled := ← env.read "BACKFILL_ENABLED" readSwitch? absent.backfillEnabled
      backfillUrl := ← env.read "BACKFILL_URL" (some ∘ some) absent.backfillUrl
      backfillDeadlineMillis :=
        ← env.read "BACKFILL_DEADLINE_MS" (fun s => (readUInt64? s).map some)
          absent.backfillDeadlineMillis
      guardTtlSeconds := ← env.read "IDEMPOTENCY_TTL_SECONDS" readUInt64? absent.guardTtlSeconds
      guardMaxEntries := ← env.read "IDEMPOTENCY_MAX_ENTRIES" readUInt64? absent.guardMaxEntries
      sweepSeconds :=
        ← env.read "IDEMPOTENCY_SWEEP_INTERVAL_SECS" readUInt64? absent.sweepSeconds
      queueSize := ← env.read "PARTITION_QUEUE_SIZE" readUInt64? absent.queueSize
      retryMillis := ← env.read "PUBLISH_RETRY_BACKOFF_MS" readUInt64? absent.retryMillis
      shutdownSeconds := ← env.read "SHUTDOWN_TIMEOUT_SECS" readUInt64? absent.shutdownSeconds
      bindHost := ← env.read "BIND_HOST" some absent.bindHost
      bindPort := ← env.read "BIND_PORT" readUInt16? absent.bindPort }

end MarketFeed
