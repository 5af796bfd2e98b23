import MarketFeed.Backfill
import MarketFeed.Pipeline.State

/-!
# The series that are measured

Each series has a name and labels. Counters only grow, a gauge has the value it was set to
last, and a histogram counts durations by how long they were.
-/

namespace MarketFeed

/-- The two outputs of the pipeline. -/
inductive OutputKind
  | normalized
  | deadLetter
  deriving DecidableEq, Repr

/-- The word for an output. -/
def OutputKind.word : OutputKind → String
  | normalized => "normalized"
  | deadLetter => "dead_letter"

/-- The kinds of errors a consumer meets, as they are counted. -/
inductive ConsumerTrouble
  | partitionEof
  | operationTimedOut
  | offsetOutOfRange
  | consumer
  | fatal
  | authentication
  | global
  | unexpected
  deriving DecidableEq, Repr

/-- The word for a kind of error. -/
def ConsumerTrouble.word : ConsumerTrouble → String
  | partitionEof => "partition_eof"
  | operationTimedOut => "op_timed_out"
  | offsetOutOfRange => "offset_out_of_range"
  | consumer => "consumer"
  | fatal => "fatal"
  | authentication => "authentication"
  | global => "global"
  | unexpected => "unexpected"

/-- The series. -/
inductive Series
  | messagesConsumed
  | consumerErrors (trouble : ConsumerTrouble)
  | offsetStoreErrors
  | partitionWorkers
  | outcomes (state : ProcessingState)
  | deadLetters (code : ErrorCode) (issue : Issue)
  | backfillLookups (result : LookupResult)
  | backfillDuration
  | processingDuration
  | publishErrors (output : OutputKind)
  | guardEntries
  | guardSwept
  deriving DecidableEq, Repr

/-- What is kept of a series. -/
inductive SeriesKind
  | counter
  | gauge
  | histogram
  deriving DecidableEq, Repr

/-- The word for a kind of series. -/
def SeriesKind.word : SeriesKind → String
  | counter => "counter"
  | gauge => "gauge"
  | histogram => "histogram"

namespace Series

/-- The kind of a series. -/
def kind : Series → SeriesKind
  | partitionWorkers | guardEntries => .gauge
  | backfillDuration | processingDuration => .histogram
  | _ => .counter

/-- The name of the family a series belongs to. -/
def family : Series → String
  | messagesConsumed => "tick_normalizer_messages_consumed_total"
  | consumerErrors _ => "tick_normalizer_kafka_consumer_errors_total"
  | offsetStoreErrors => "tick_normalizer_offset_store_errors_total"
  | partitionWorkers => "tick_normalizer_partition_workers"
  | outcomes _ => "tick_normalizer_outcomes_total"
  | deadLetters _ _ => "tick_normalizer_dead_letters_total"
  | backfillLookups _ => "tick_normalizer_backfill_lookups_total"
  | backfillDuration => "tick_normalizer_backfill_duration_seconds"
  | processingDuration => "tick_normalizer_processing_duration_seconds"
  | publishErrors _ => "tick_normalizer_publish_errors_total"
  | guardEntries => "tick_normalizer_idempotency_entries"
  | guardSwept => "tick_normalizer_idempotency_swept_total"

/-- The labels of a series, by name. -/
def labels : Series → List (String × String)
  | consumerErrors trouble => [("error", trouble.word)]
  | outcomes state => [("outcome", state.name)]
  | deadLetters code issue => [("error_code", code.word), ("issue", issue.code)]
  | backfillLookups result => [("result", result.word)]
  | publishErrors output => [("output", output.word)]
  | _ => []

end Series

end MarketFeed
