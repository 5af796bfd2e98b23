import MarketFeed.Quote
import MarketFeed.Tick

/-!
# From quote to tick

A quote with a price becomes a tick: the envelope is that of the event, and a price that was
looked up is marked as the last issue. The clock of a connector may be ahead of ours, so a
tick is never normalized before its event occurred.
-/

namespace MarketFeed

/-- Why a quote cannot become a tick. -/
inductive NormalizeError
  | missingPrice (instrumentId : String)
  deriving DecidableEq, Repr

/-- The message about a quote that cannot become a tick. -/
def NormalizeError.message : NormalizeError → String
  | missingPrice instrumentId => "record for " ++ instrumentId ++ " has no price"

/-- The issues of a tick: those of its quote, and whether the price was looked up. -/
def Quote.tickIssues (quote : Quote) (backfilled : Bool) : IssueSet :=
  if backfilled then quote.issues.insert Issue.priceBackfilled.code else quote.issues

/-- The later of two instants. -/
def laterOf (a b : Int64) : Int64 := if a ≤ b then b else a

/-- The tick for a quote with a price. -/
def Quote.tick (quote : Quote) (event : RawEvent) (price : Float) (backfilled : Bool)
    (now : Int64) : CanonicalTick where
  envelope := event.envelope
  payload :=
    { instrumentId := quote.instrumentId
      market := quote.market
      symbol := quote.symbol
      sourceSystem := event.payload.sourceSystem
      sequence := event.payload.sequence
      price := price
      volume := quote.volume
      currency := quote.currency
      normalizedAt := laterOf now event.envelope.occurredAt
      quality := Quality.ofIssues (quote.tickIssues backfilled) }

/-- The tick for a quote. -/
def normalize (quote : Quote) (event : RawEvent) (backfilled : Bool) (now : Int64) :
    Except NormalizeError CanonicalTick :=
  match quote.price with
  | some price => .ok (quote.tick event price backfilled now)
  | none => .error (.missingPrice quote.instrumentId)

end MarketFeed
