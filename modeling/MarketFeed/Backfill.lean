import MarketFeed.Quote

/-!
# Looking up a missing price

The historical store knows the last tick of an instrument. A price found there is held to the
same rule as one of an event; anything else the store answers, and any failure to get an
answer, is a breach of its own.
-/

namespace MarketFeed

open Json

/-- The last tick the store knows of an instrument. -/
structure LatestTick where
  price : Float
  volume : Option Float
  observedAt : Option Int64

/-- The fields of a last tick. -/
def LatestTick.fields : Fields [Float, Option Float, Option Int64] :=
  .cons { key := "price", read := readDouble } <|
  .cons { key := "volume", read := readNullable readDouble, absence := .default none } <|
  .cons { key := "observed_at", read := readNullable readInt64, absence := .default none } .nil

/-- Read a last tick. -/
def LatestTick.read (tree : Tree) : Except Fault LatestTick := do
  let (price, volume, observedAt, _) ← LatestTick.fields.read tree
  pure ⟨price, volume, observedAt⟩

/-- Read the body of a reply as a last tick. -/
def LatestTick.decode (bytes : Bytes) : Except Fault LatestTick := Json.decode LatestTick.read bytes

/-- The price, if it is usable. -/
def LatestTick.usablePrice? (tick : LatestTick) : Option Float :=
  if isUsablePrice tick.price then some tick.price else none

/-- Why a lookup has no answer. -/
inductive BackfillError
  | transport (reason : String)
  | status (instrumentId : String) (code : Nat)
  | decode (instrumentId reason : String)
  | invalidBaseUrl (url reason : String)
  deriving DecidableEq, Repr

/-- The message about a lookup without an answer. -/
def BackfillError.message : BackfillError → String
  | transport reason => "request to historical store failed: " ++ reason
  | status instrumentId code =>
    "historical store returned status " ++ Number.natText code ++ " for " ++ instrumentId
  | decode instrumentId reason =>
    "could not decode latest tick for " ++ instrumentId ++ ": " ++ reason
  | invalidBaseUrl url reason => "invalid historical store URL " ++ url ++ ": " ++ reason

/-- The answer of a lookup: the last tick, or none, or a failure. -/
abbrev LookupAnswer := Except BackfillError (Option LatestTick)

/-- What a lookup comes to, for the count of lookups. -/
inductive LookupResult
  | hit
  | miss
  | error
  deriving DecidableEq, Repr

/-- The word for the result of a lookup. -/
def LookupResult.word : LookupResult → String
  | hit => "hit"
  | miss => "miss"
  | error => "error"

/-- What a lookup comes to. -/
def lookupResult : LookupAnswer → LookupResult
  | .ok (some latest) => if latest.usablePrice?.isSome then .hit else .miss
  | .ok none => .miss
  | .error _ => .error

/-- The price a lookup gives for an instrument, or the breach it amounts to. -/
def lookupPrice (instrumentId : String) : LookupAnswer → Except ContractError Float
  | .ok (some latest) =>
    match latest.usablePrice? with
    | some price => .ok price
    | none =>
      .error (.violation .priceBackfillMiss
        ("latest price " ++ shown latest.price ++ " for " ++ instrumentId ++ " is not usable"))
  | .ok none => .error (.violation .priceBackfillMiss ("no latest tick for " ++ instrumentId))
  | .error e => .error (.violation .priceBackfillFailed e.message)

end MarketFeed
