import MarketFeed.Backfill
import MarketFeed.Url.Read

/-!
# The historical store

The store is asked over the network, under a URL of its own: the last tick of an instrument
is found under the segments `instruments`, the id and `latest`. Only a reply that says so
means that there is no tick, and only a whole body of a successful reply is one; all else is
a failure of the lookup.
-/

namespace MarketFeed

/-- A historical store: where it is, and how long it may take to answer, in milliseconds. -/
structure HistoricalStore where
  base : Url
  deadline : Option Nat

/-- What comes back when the store is asked. -/
inductive StoreReply
  /-- Nothing, or nothing in time. -/
  | silence
  /-- A status and a body, unless the body was cut short. -/
  | reply (status : Nat) (body : Option Bytes)

/-- The status is one of three digits that ends an exchange: those below 200 only announce
another reply, but for the change of protocols. -/
def concludes (status : Nat) : Bool :=
  status = 101 || (200 ≤ status && status < 1000)

/-- What came back, if all that came has this status. -/
def StoreReply.received (status : Nat) (body : Option Bytes) : StoreReply :=
  if concludes status then .reply status body else .silence

namespace HistoricalStore

/-- The store under a URL. -/
def ofUrl (url : String) (deadline : Option Nat) : Except BackfillError HistoricalStore :=
  match Url.read url with
  | .ok base => .ok ⟨base, deadline⟩
  | .error e => .error (.invalidBaseUrl url e.message)

/-- The URL of the last tick of an instrument. -/
def latestUrl (store : HistoricalStore) (instrumentId : String) : Url :=
  store.base.extend ["instruments".toList, instrumentId.toList, "latest".toList]

/-- The first line of the request for the last tick of an instrument. -/
def requestLine (store : HistoricalStore) (instrumentId : String) : String :=
  "GET " ++ (store.latestUrl instrumentId).target ++ " HTTP/1.1"

/-- The failure of a lookup for which no whole reply came. -/
def noReply : BackfillError := .transport "no complete reply"

/-- The answer that a reply amounts to. -/
def interpret (instrumentId : String) : StoreReply → LookupAnswer
  | .silence => .error noReply
  | .reply 200 none => .error noReply
  | .reply 200 (some body) =>
    match LatestTick.decode body with
    | .ok tick => .ok (some tick)
    | .error fault => .error (.decode instrumentId fault.message)
  | .reply 404 _ => .ok none
  | .reply status _ => .error (.status instrumentId status)

end HistoricalStore

end MarketFeed
