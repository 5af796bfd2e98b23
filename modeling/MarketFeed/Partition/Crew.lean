import MarketFeed.Partition.Worker

/-!
# The crew of partition workers

Each message goes to the worker of its partition, which is hired with the first message. A
worker takes only so many messages before it has begun them; then the message has to wait for
a place. A message for a worker that has ended is left. When the crew is dismissed no more
messages come, and the workers end after those they have.
-/

namespace MarketFeed

/-- The workers by partition, how many messages may wait for each, and whether no more
messages will come. -/
structure Crew where
  capacity : Nat
  workers : List (Partition × Worker)
  dismissed : Bool

/-- What becomes of a message that is handed over. -/
inductive Handover
  | queued
  /-- There is no place yet. -/
  | waiting
  /-- The worker has ended, and the message is left. -/
  | left
  deriving DecidableEq, Repr

namespace Crew

/-- A crew without workers. At least one message may wait for each. -/
def new (queueSize : Nat) : Crew := ⟨max 1 queueSize, [], false⟩

/-- The number of workers. -/
def size (crew : Crew) : Nat := crew.workers.length

/-- The worker of a partition. -/
def worker? (crew : Crew) (p : Partition) : Option Worker :=
  (crew.workers.find? fun entry => entry.1 = p).map (·.2)

/-- Replace the worker of a partition. -/
def set (crew : Crew) (p : Partition) (w : Worker) : Crew :=
  { crew with workers := crew.workers.map fun entry => if entry.1 = p then (p, w) else entry }

/-- Hire a worker for a partition that has none, and tell whether one was hired. -/
def hire (crew : Crew) (p : Partition) : Bool × Crew :=
  match crew.worker? p with
  | some _ => (false, crew)
  | none => (true, { crew with workers := crew.workers ++ [(p, .idle)] })

/-- Hand a message over to the worker of its partition. -/
def handOver (crew : Crew) (m : InputMessage) : Handover × Crew :=
  match crew.worker? m.partition with
  | none => (.left, crew)
  | some w =>
    if w.ended then (.left, crew)
    else if w.queue.length < crew.capacity then
      (.queued, crew.set m.partition { w with queue := w.queue ++ [m] })
    else (.waiting, crew)

/-- No more messages will come. -/
def dismiss (crew : Crew) : Crew := { crew with dismissed := true }

/-- All workers have ended. -/
def hasEnded (crew : Crew) : Bool := crew.workers.all fun entry => entry.2.ended

/-- The partitions whose worker has not ended. -/
def present (crew : Crew) : List Partition :=
  (crew.workers.filter fun entry => !entry.2.ended).map (·.1)

end Crew

end MarketFeed
