/-!
# The idempotency guard

The guard remembers which event ids have produced an output, so that a repeated delivery can
be dropped. An entry is live until its age reaches the time to live. Expired entries are
dropped when they are looked up or swept, and when there are more entries than the guard may
hold, the ones marked first are evicted.

The order of marking is a queue of positions. An entry that is marked again, forgotten or
expired leaves its old position behind; a position counts only while the entry of its id
carries the same instant. Positions that no longer count are removed when there are too many
of them.

Instants count milliseconds of a clock that starts at zero. It may be read as going back;
an age is then zero.
-/

namespace MarketFeed

/-- An instant of the monotonic clock, in milliseconds. -/
abbrev Instant := Nat

/-- An id and the instant at which it was marked. -/
abbrev Mark := String × Instant

/-- The guard: its limits, its entries and the queue of positions. -/
structure Guard where
  ttl : Nat
  capacity : Nat
  entries : List Mark
  order : List Mark

namespace Guard

/-- A guard without entries, which may hold one entry at least. -/
def new (ttl maxEntries : Nat) : Guard := ⟨ttl, max 1 maxEntries, [], []⟩

/-- The instant at which an id was marked. -/
def markedAt? (entries : List Mark) (id : String) : Option Instant :=
  (entries.find? fun entry => entry.1 = id).map (·.2)

/-- Drop the entry of an id. -/
def dropEntry (entries : List Mark) (id : String) : List Mark :=
  entries.filter fun entry => entry.1 ≠ id

/-- A position counts if the entry of its id carries the same instant. -/
def counts (entries : List Mark) (position : Mark) : Bool :=
  markedAt? entries position.1 = some position.2

/-- An entry marked at an instant is live: its age has not reached the time to live. -/
def isFresh (g : Guard) (now marked : Instant) : Bool := now - marked < g.ttl

/-- The id has a live entry. -/
def isLive (g : Guard) (now : Instant) (id : String) : Bool :=
  (markedAt? g.entries id).any (g.isFresh now)

/-- Take positions off the front of the queue until there are no more entries than the guard
may hold; an entry goes with the position that counts for it. -/
def evict (capacity : Nat) (entries : List Mark) : List Mark → List Mark × List Mark
  | [] => (entries, [])
  | position :: order =>
    if entries.length ≤ capacity then (entries, position :: order)
    else
      evict capacity
        (if counts entries position then dropEntry entries position.1 else entries) order

/-- As many positions are kept as this before those that no longer count are removed. -/
def slack (entries : List Mark) : Nat := max 64 (2 * entries.length)

/-- Mark an id now, whether it has an entry or not. -/
def mark (g : Guard) (now : Instant) (id : String) : Guard :=
  let marked := dropEntry g.entries id ++ [(id, now)]
  let (entries, order) := evict g.capacity marked (g.order ++ [(id, now)])
  { g with
    entries := entries
    order := if slack entries < order.length then order.filter (counts entries) else order }

/-- Whether the id has a live entry; an expired one is dropped. -/
def seen (g : Guard) (now : Instant) (id : String) : Bool × Guard :=
  if g.isLive now id then (true, g)
  else (false, { g with entries := dropEntry g.entries id })

/-- Mark an id now unless it has a live entry, and tell whether it was marked. -/
def tryMark (g : Guard) (now : Instant) (id : String) : Bool × Guard :=
  if g.isLive now id then (false, g) else (true, g.mark now id)

/-- Drop the entry of an id. -/
def forget (g : Guard) (id : String) : Guard :=
  { g with entries := dropEntry g.entries id }

/-- Drop all expired entries, and tell how many there were. -/
def sweep (g : Guard) (now : Instant) : Nat × Guard :=
  let entries := g.entries.filter fun entry => g.isFresh now entry.2
  (g.entries.length - entries.length,
    { g with entries := entries, order := g.order.filter (counts entries) })

/-- The number of entries. -/
def size (g : Guard) : Nat := g.entries.length

end Guard

end MarketFeed
