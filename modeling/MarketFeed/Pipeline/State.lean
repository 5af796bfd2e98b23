/-!
# The states of processing

An event moves through these states; the last three are final.
-/

namespace MarketFeed

/-- The states of an event on its way. -/
inductive ProcessingState
  | received
  | parsing
  | schemaInvalid
  | fieldCheck
  | contractViolation
  | backfillLookup
  | ready
  | fallbackApplied
  | dedupCheck
  | emitNormalized
  | emitDlq
  | duplicateDropped
  deriving DecidableEq, Repr

namespace ProcessingState

/-- All states, in the order in which an event can reach them. -/
def all : List ProcessingState :=
  [received, parsing, schemaInvalid, fieldCheck, contractViolation, backfillLookup, ready,
   fallbackApplied, dedupCheck, emitNormalized, emitDlq, duplicateDropped]

/-- The name of a state in logs and metrics. -/
def name : ProcessingState → String
  | received => "received"
  | parsing => "parsing"
  | schemaInvalid => "schema_invalid"
  | fieldCheck => "field_check"
  | contractViolation => "contract_violation"
  | backfillLookup => "backfill_lookup"
  | ready => "ready"
  | fallbackApplied => "fallback_applied"
  | dedupCheck => "dedup_check"
  | emitNormalized => "emit_normalized"
  | emitDlq => "emit_dlq"
  | duplicateDropped => "duplicate_dropped"

/-- Nothing follows a final state. -/
def isTerminal : ProcessingState → Bool
  | emitNormalized | emitDlq | duplicateDropped => true
  | _ => false

end ProcessingState

end MarketFeed
