import MarketFeed.Consumer.Reaction
import MarketFeed.Metrics.Ledger
import MarketFeed.Partition.Worker

/-!
# The consumer loop

The loop takes one result of the consumer after the other. A message is dispatched to the
worker of its partition; an error is survived, perhaps after a pause, or stops the loop. The
errors since the last message are counted, and they alone decide how long a pause is.
-/

namespace MarketFeed

/-- A result of the consumer. -/
inductive Received
  | message (m : InputMessage)
  | error (e : BrokerError)

/-- How the loop goes on after a result. -/
inductive Continuation
  | dispatch (m : InputMessage)
  | pause (millis : Nat)
  | stop (e : BrokerError)

/-- Take a result: how the loop goes on, the errors since the last message, and the
measurements. -/
def Received.handle (received : Received) (errors : Nat) (ledger : Ledger) :
    Continuation × Nat × Ledger :=
  match received with
  | .message m => (.dispatch m, 0, ledger.count .messagesConsumed)
  | .error e =>
    let reaction := e.reaction (errors + 1)
    let ledger := reaction.series.elim ledger ledger.count
    (if reaction.stops then .stop e else .pause reaction.pause, errors + 1, ledger)

/-- The failure that a loop which was stopped ends with. The end of the client is none. -/
def loopFailure? : Option BrokerError → Option BrokerError
  | some .canceled => none
  | other => other

/-- How often the loop reports that it is healthy, in milliseconds. -/
def reportInterval : Nat := 5000

/-- How long a report of a component of the service counts, in milliseconds. -/
def reportSpan : Nat := 30000

end MarketFeed
