import MarketFeed.Consumer.Loop

/-!
# Which errors the loop survives

The loop stops at a fatal error of the consumer, at a failed authentication and at the end of the
client, and at no other error. The pause after another error depends on what the error is counted
as, which is told by its kind and its code, and on the number of errors since the last message. It
is short whatever their number.
-/

namespace MarketFeed

/-- The errors that stop the loop. -/
inductive BrokerError.Stops : BrokerError → Prop
  | fatal (code : BrokerCode) : Stops (.messageConsumptionFatal code)
  | authentication : Stops (.global .authentication)
  | canceled : Stops .canceled

/-- The pause after the `count`th error since the last message, by what it is counted as. -/
def ConsumerTrouble.pause (count : Nat) : ConsumerTrouble → Nat
  | offsetOutOfRange => 500
  | consumer | unexpected => growingPause 100 10 count
  | global => growingPause 500 6 count
  | partitionEof | operationTimedOut | fatal | authentication => 0

/-- The longest pause after an error, in milliseconds. -/
def longestPause : Nat := 3000

/-- No pause is longer. -/
theorem ConsumerTrouble.pause_le (trouble : ConsumerTrouble) (count : Nat) :
    trouble.pause count ≤ longestPause := by
  unfold pause growingPause longestPause
  split <;> omega

namespace BrokerError

/-- What an error is counted as. The end of the client is not counted. -/
def trouble? (e : BrokerError) : Option ConsumerTrouble := (e.reaction 0).trouble

/-- The pause after an error that is counted so. -/
def pauseAfter (trouble : Option ConsumerTrouble) (count : Nat) : Nat :=
  trouble.elim 0 (ConsumerTrouble.pause count)

/-- No pause is longer. -/
theorem pauseAfter_le (trouble : Option ConsumerTrouble) (count : Nat) :
    pauseAfter trouble count ≤ longestPause := by
  cases trouble with
  | none => exact Nat.zero_le _
  | some counted => exact counted.pause_le count

/-- The number of errors changes nothing but the pause. -/
theorem reaction_pause (e : BrokerError) (count : Nat) :
    (e.reaction count).pause = pauseAfter e.trouble? count := by
  cases e with
  | messageConsumption code => cases code <;> rfl
  | global code => cases code <;> rfl
  | _ => rfl

/-- The loop stops at these errors only. -/
theorem reaction_stops (e : BrokerError) (count : Nat) :
    (e.reaction count).stops = true ↔ e.Stops := by
  constructor
  · intro h
    unfold reaction at h
    split at h
    case h_5 code => exact .fatal code
    case h_6 => exact .authentication
    case h_8 => exact .canceled
    all_goals cases h
  · intro h
    cases h <;> rfl

end BrokerError

namespace Received

variable {e : BrokerError} (errors : Nat) (ledger : Ledger)

/-- An error that stops the loop does. -/
theorem handle_of_stops (h : e.Stops) : ((error e).handle errors ledger).1 = .stop e :=
  if_pos ((e.reaction_stops _).mpr h)

/-- Any other error is survived, with a pause. -/
theorem handle_of_survived (h : ¬ e.Stops) :
    ((error e).handle errors ledger).1 =
      .pause (BrokerError.pauseAfter e.trouble? (errors + 1)) := by
  rw [← e.reaction_pause]
  exact if_neg (mt (e.reaction_stops _).mp h)

end Received

end MarketFeed
