import MarketFeed.Partition.Crew
import MarketFeed.Rehearsal.Agenda
import MarketFeed.Rehearsal.Pipeline

/-!
# Rehearsing the partition workers

Messages are handed to a crew of workers, which run while the rehearsal waits: when time
passes, when a message waits for a place, and when the crew is dismissed.
-/

namespace MarketFeed.Rehearsal

/-- The parties of a rehearsal: the workers, and the loops of the service. -/
inductive Party
  | worker (p : Partition)
  | consumer
  | sweeper
  deriving DecidableEq, Repr

/-- What the workers of a rehearsal share: what deliveries share, the broker, the crew, who
runs when, the pause before a failed message is tried again, and whether the service is to
stop. -/
structure Yard where
  shared : Shared
  broker : Broker
  crew : Crew
  agenda : Agenda Party
  backoff : Nat
  stopping : Bool

/-- The surroundings of workers that have a broker and, perhaps, a historical store that does
not answer. -/
def workplace (backfills : Bool) : Workplace Broker where
  backfills := backfills
  lookup _ s broker := (.error (.transport "no reply"), s, broker)
  publish := Broker.publish
  store := Broker.store

namespace Yard

/-- A yard without workers. -/
def new (shared : Shared) (broker : Broker) (queueSize backoff : Nat) : Yard :=
  ⟨shared, broker, Crew.new queueSize, Agenda.empty, backoff, false⟩

/-- A party has something to do. -/
def wake (yard : Yard) (party : Party) : Yard := { yard with agenda := yard.agenda.wake party }

/-- Change the measurements. -/
def measure (yard : Yard) (change : Ledger → Ledger) : Yard :=
  { yard with shared := yard.shared.measure change }

/-- Let the worker of a partition run at a workplace until it has to wait. -/
def runWorkerAt (place : Workplace Broker) (p : Partition) (yard : Yard) : Yard :=
  match yard.crew.worker? p with
  | none => yard
  | some w =>
    let (w, shared, broker) :=
      w.run place yard.stopping yard.crew.dismissed yard.shared yard.broker
    { yard with
      shared := shared
      broker := broker
      crew := yard.crew.set p w
      agenda :=
        if w.begun.isSome then yard.agenda.waitFor yard.backoff (.worker p) else yard.agenda }

/-- Let the worker of a partition run until it has to wait. -/
def runWorker (backfills : Bool) (p : Partition) (yard : Yard) : Yard :=
  yard.runWorkerAt (workplace backfills) p

/-- Hire a worker for the partition of a message, if there is none. -/
def prepare (m : InputMessage) (yard : Yard) : Yard :=
  match yard.crew.hire m.partition with
  | (false, _) => yard
  | (true, crew) =>
    { yard with crew := crew, agenda := yard.agenda.wake (.worker m.partition) }.measure
      fun ledger => ledger.set .partitionWorkers crew.size

/-- Hand a message over. A worker that waits for messages then has something to do; one that
has to try a message again goes on waiting. -/
def handOver (m : InputMessage) (yard : Yard) : Handover × Yard :=
  match yard.crew.handOver m with
  | (.queued, crew) =>
    let resting := ((crew.worker? m.partition).bind Worker.begun).isNone
    let yard := { yard with crew := crew }
    (.queued, if resting then yard.wake (.worker m.partition) else yard)
  | (other, _) => (other, yard)

/-- The service is to stop. -/
def signal (yard : Yard) : Yard :=
  { yard with
    stopping := true
    agenda := yard.agenda.wakeAll (yard.crew.present.map Party.worker) }

/-- No more messages will come. -/
def dismiss (yard : Yard) : Yard :=
  let resting := yard.crew.present.filter fun p =>
    ((yard.crew.worker? p).bind Worker.begun).isNone
  { yard with
    crew := yard.crew.dismiss
    agenda := yard.agenda.wakeAll (resting.map Party.worker) }

/-- What happens when a party of a rehearsal without a service runs. -/
def run (party : Party) (yard : Yard) : Yard :=
  match party with
  | .worker p => yard.runWorker false p
  | .consumer | .sweeper => yard

/-- The rehearsal of the workers alone. -/
def scene : Scene Party Yard where
  agenda := Yard.agenda
  setAgenda agenda yard := { yard with agenda := agenda }
  run := Yard.run

/-- The message would not have to wait for a place. -/
def hasRoom (m : InputMessage) (yard : Yard) : Bool := (yard.crew.handOver m).1 ≠ .waiting

/-- Dispatch a message, for which it may have to wait so long, and tell whether it had not to
be given up. -/
def dispatch (m : InputMessage) (patience : Nat) (yard : Yard) : Bool × Yard :=
  let yard := yard.prepare m
  let yard :=
    if yard.hasRoom m then yard
    else scene.playUntil (yard.agenda.clock + patience) (hasRoom m) yard
  match yard.handOver m with
  | (.waiting, yard) => (false, yard)
  | (_, yard) => (true, yard)

/-- Dismiss the crew and wait for it, at most so long; tell whether it has ended. -/
def shutDown (timeout : Nat) (yard : Yard) : Bool × Yard :=
  let yard := yard.dismiss
  let yard :=
    scene.playUntil (yard.agenda.clock + timeout) (fun yard => yard.crew.hasEnded) yard
  (yard.crew.hasEnded, yard)

end Yard

/-- One step of a rehearsal of the workers. -/
inductive DispatchStep
  | dispatch (m : InputMessage) (patience : Nat)
  | idle (millis : Nat)
  | signal
  | shutDown (timeout : Nat)
  | refuse (offsets : List Int64)
  | failNext (count : Nat)
  | advance (millis : Nat)
  | guard (call : GuardCall)

/-- The answer to a step; where a state is answered, it is that of the yard. -/
inductive DispatchAnswer
  | nothing
  | dispatched (done : Bool) (workers : Nat)
  | state (yard : Yard)
  | stopped (done : Bool) (yard : Yard)
  | guard (answer : GuardAnswer)

/-- Take one step. -/
def DispatchStep.perform (step : DispatchStep) (yard : Yard) : DispatchAnswer × Yard :=
  match step with
  | .dispatch m patience =>
    let (done, yard) := yard.dispatch m patience
    (.dispatched done yard.crew.size, yard)
  | .idle millis => let yard := Yard.scene.pass millis yard; (.state yard, yard)
  | .signal => (.nothing, yard.signal)
  | .shutDown timeout =>
    let (done, yard) := yard.shutDown timeout
    (.stopped done yard, yard)
  | .refuse offsets => (.nothing, { yard with broker := { yard.broker with refused := offsets } })
  | .failNext count => (.nothing, { yard with broker := yard.broker.ordain .dropped count })
  | .advance millis =>
    let shared := { yard.shared with instant := yard.shared.instant + millis }
    (.nothing, { yard with shared := shared })
  | .guard call =>
    let (reply, held) := call.perform yard.shared.instant yard.shared.guard
    (.guard reply, { yard with shared := { yard.shared with guard := held } })

/-- Take all steps in order. -/
def dispatchAll : List DispatchStep → Yard → List DispatchAnswer × Yard
  | [], yard => ([], yard)
  | step :: rest, yard =>
    let (answer, yard) := step.perform yard
    let (answers, yard) := dispatchAll rest yard
    (answer :: answers, yard)

end MarketFeed.Rehearsal
