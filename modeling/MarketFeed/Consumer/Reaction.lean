import MarketFeed.Broker.Error
import MarketFeed.Metrics.Series

/-!
# How the consumer reacts to errors

Most errors of the consumer are survived: they are counted, and the consumer may pause before
it asks for the next message, for longer the more errors there were since the last message.
A fatal error, a failed authentication and the end of the client stop the consumer.
-/

namespace MarketFeed

/-- A reaction: what the error is counted as, how long the consumer pauses, in milliseconds,
and whether it stops. -/
structure Reaction where
  trouble : Option ConsumerTrouble
  pause : Nat
  stops : Bool
  deriving DecidableEq, Repr

/-- Survive an error. -/
def Reaction.survive (trouble : ConsumerTrouble) (pause : Nat) : Reaction :=
  ⟨some trouble, pause, false⟩

/-- A pause that grows with the number of errors up to a number of steps. -/
def growingPause (step limit count : Nat) : Nat := step * min count limit

/-- The reaction to the error that is the `count`th since the last message. -/
def BrokerError.reaction (count : Nat) : BrokerError → Reaction
  | .messageConsumption .partitionEof => .survive .partitionEof 0
  | .messageConsumption .operationTimedOut => .survive .operationTimedOut 0
  | .messageConsumption .offsetOutOfRange => .survive .offsetOutOfRange 500
  | .messageConsumption _ => .survive .consumer (growingPause 100 10 count)
  | .messageConsumptionFatal _ => ⟨some .fatal, 0, true⟩
  | .global .authentication => ⟨some .authentication, 0, true⟩
  | .global _ => .survive .global (growingPause 500 6 count)
  | .canceled => ⟨none, 0, true⟩
  | _ => .survive .unexpected (growingPause 100 10 count)

/-- Count an error. -/
def Reaction.series (r : Reaction) : Option Series := r.trouble.map .consumerErrors

end MarketFeed
