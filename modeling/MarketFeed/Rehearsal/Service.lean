import MarketFeed.Consumer.Loop
import MarketFeed.Health
import MarketFeed.Rehearsal.Dispatch
import MarketFeed.Service.Startup

/-!
# Rehearsing the service

The service is started with a broker whose faults are set, and then runs while the rehearsal
waits: the consumer loop takes what the consumer is given, the workers process it, and the
guard is swept from time to time. When the loop ends, the workers are dismissed, the producer
is flushed, the stored offsets are committed and the consumer is unsubscribed, in this order.
-/

namespace MarketFeed.Rehearsal

/-- The faults of a broker when clients are created. -/
structure StartupFaults where
  producer : Option String
  metadata : Option BrokerCode
  consumer : Option String
  subscription : Option String

/-- Write an event down, and then fail if a fault is set. -/
def askBroker (event : BrokerEvent) (fault : Option BrokerError) :
    ExceptT BrokerError (StateM Broker) Unit := do
  modify fun broker => broker.note event
  match fault with
  | some e => throw e
  | none => pure ()

/-- The clients of a broker with faults. -/
def StartupFaults.factory (faults : StartupFaults) : ClientFactory Broker where
  createProducer settings :=
    askBroker (.producerCreated settings) (faults.producer.map .clientCreation)
  fetchMetadata millis := askBroker (.metadataFetched millis) (faults.metadata.map .metadataFetch)
  createConsumer settings :=
    askBroker (.consumerCreated settings) (faults.consumer.map .clientCreation)
  subscribe topics := askBroker (.subscribed topics) (faults.subscription.map .subscription)

/-- What the consumer loop is doing. -/
inductive LoopPhase
  | listening
  /-- It pauses after an error, until an instant. -/
  | pausing (last : Nat)
  /-- It waits for a place in the queue of a worker. -/
  | blocked (m : InputMessage)
  /-- It waits for the workers to end, until an instant. -/
  | closing (last : Nat)
  | finished
  deriving DecidableEq, Repr

/-- A service that has started. -/
structure Service where
  config : Config
  backfills : Bool
  yard : Yard
  registry : HealthRegistry
  loop : HealthHandle
  producer : HealthHandle
  consumer : HealthHandle
  inbox : List Received
  errors : Nat
  phase : LoopPhase
  stoppedBy : Option BrokerError
  nextReport : Nat
  nextSweep : Nat

namespace Service

/-- Start a service. Whether it starts or not, the broker has written down what it was
asked. -/
def start (config : Config) (wall : Int64) (faults : StartupFaults) :
    Except StartupError Service × Broker :=
  let (loop, registry) := HealthRegistry.register [] "consumer_loop" reportSpan
  let (consumer, registry) := registry.register "rdkafka_consumer" reportSpan
  let (producer, registry) := registry.register "rdkafka_producer" reportSpan
  let (result, broker) := (config.start faults.factory).run (Broker.new config.outputTopics)
  let shared := sharedAt wall config.guardTtl config.guardMaxEntries.toNat
  let yard := Yard.new shared broker config.queueSize.toNat config.retryBackoff
  (result.map fun store =>
    { config := config
      backfills := store.isSome
      yard := { yard with agenda := yard.agenda.wakeAll [.sweeper, .consumer] }
      registry := registry
      loop := loop
      producer := producer
      consumer := consumer
      inbox := []
      errors := 0
      phase := .listening
      stoppedBy := none
      nextReport := 0
      nextSweep := 0 }, broker)

/-- A party has something to do. -/
def wake (service : Service) (party : Party) : Service :=
  { service with yard := service.yard.wake party }

/-- The instant of the clock that parties wait by. -/
def clock (service : Service) : Nat := service.yard.agenda.clock

/-- A party waits for an instant. -/
def waitUntil (service : Service) (instant : Nat) (party : Party) : Service :=
  { service with
    yard := { service.yard with agenda := service.yard.agenda.waitUntil instant party } }

/-- Ask the broker. -/
def ask {α : Type} (service : Service) (request : Broker → α × Broker) : α × Service :=
  let (answer, broker) := request service.yard.broker
  (answer, { service with yard := { service.yard with broker := broker } })

/-! ## The consumer loop -/

/-- Report that the loop is healthy if that is due, and wait for the next time. -/
def reportIfDue (service : Service) : Service :=
  if service.clock < service.nextReport then service
  else
    let next := (service.clock / reportInterval + 1) * reportInterval
    { service with
      registry := service.registry.reportHealthy service.loop service.yard.shared.instant
      nextReport := next }.waitUntil next .consumer

/-- The workers have ended, or the time for it is over: the last requests to the broker. That
one fails keeps none from following. -/
def finish (service : Service) : Service :=
  let (_, service) := service.ask (Broker.flush service.config.producerShutdown)
  let (_, service) := service.ask Broker.commit
  let ((), service) := service.ask fun broker => ((), broker.note .unsubscribed)
  { service with phase := .finished }

/-- Finish if the workers have ended or the time for it is over. -/
def close (service : Service) (last : Nat) : Service :=
  if service.yard.crew.hasEnded || last ≤ service.clock then service.finish else service

/-- Leave the loop: dismiss the workers, and wait for them. -/
def leave (service : Service) : Service :=
  let last := service.clock + service.config.shutdownTimeout
  { service with yard := service.yard.dismiss, phase := .closing last }.waitUntil last .consumer
    |>.close last

/-- Dispatch a message, and tell whether it did not have to wait. -/
def dispatch (service : Service) (m : InputMessage) : Bool × Service :=
  match (service.yard.prepare m).handOver m with
  | (.waiting, yard) => (false, { service with yard := yard, phase := .blocked m })
  | (_, yard) => (true, { service with yard := yard, phase := .listening })

/-- Take the results that the consumer was given, as far as the loop can. -/
def listen (service : Service) : List Received → Service
  | [] => { service with inbox := [], phase := .listening }
  | received :: rest =>
    let (next, errors, ledger) :=
      received.handle service.errors service.yard.shared.ledger
    let service := { service with errors := errors, inbox := rest }
    let service := { service with yard := service.yard.measure fun _ => ledger }
    match next with
    | .dispatch m =>
      match service.dispatch m with
      | (true, service) => service.listen rest
      | (false, service) => service
    | .pause 0 => service.listen rest
    | .pause millis =>
      let last := service.clock + millis
      { service with phase := .pausing last }.waitUntil last .consumer
    | .stop e =>
      { service with
        registry := service.registry.report service.loop.component .unhealthy
        stoppedBy := some e }.leave

/-- The loop goes on: it leaves if the service is to stop, else it reports and listens. If there is
a result as well, it is open which of the two comes first; here the loop leaves. -/
def goOn (service : Service) : Service :=
  if service.yard.stopping then service.leave
  else
    let service := service.reportIfDue
    service.listen service.inbox

/-- Let the consumer loop run until it has to wait. -/
def runConsumer (service : Service) : Service :=
  match service.phase with
  | .listening => service.goOn
  | .pausing last => if last ≤ service.clock then service.goOn else service
  | .blocked m =>
    match service.dispatch m with
    | (true, service) => service.goOn
    | (false, service) => service
  | .closing last => service.close last
  | .finished => service

/-! ## The other parties -/

/-- Sweep the guard if that is due, and wait for the next time. No time between two sweeps
means that there are none. -/
def runSweeper (service : Service) : Service :=
  let period := service.config.sweepInterval
  if service.yard.stopping || period = 0 || service.clock < service.nextSweep then service
  else
    let (removed, shared) := service.yard.shared.sweep
    let shared := shared.measure fun ledger =>
      (ledger.add .guardSwept removed).set .guardEntries shared.guard.size
    let next := service.nextSweep + period
    { service with
      yard := { service.yard with shared := shared }
      nextSweep := next }.waitUntil next .sweeper

/-- The consumer loop waits for what a worker has just done. -/
def consumerConcerned (service : Service) : Bool :=
  match service.phase with
  | .blocked m => service.yard.hasRoom m
  | .closing _ => service.yard.crew.hasEnded
  | _ => false

/-- Let a worker run until it has to wait. -/
def runWorker (service : Service) (p : Partition) : Service :=
  let service := { service with yard := service.yard.runWorker service.backfills p }
  if service.consumerConcerned then service.wake .consumer else service

/-- What happens when a party runs. -/
def run (party : Party) (service : Service) : Service :=
  match party with
  | .worker p => service.runWorker p
  | .consumer => service.runConsumer
  | .sweeper => service.runSweeper

/-- The rehearsal of the service. -/
def scene : Scene Party Service where
  agenda service := service.yard.agenda
  setAgenda agenda service := { service with yard := { service.yard with agenda := agenda } }
  run := Service.run

/-- The consumer loop has ended. -/
def hasFinished (service : Service) : Bool := service.phase = .finished

/-- The failure the service has ended with. -/
def failure? (service : Service) : Option ProgramError :=
  (loopFailure? service.stoppedBy).map .loop

/-! ## What is done to a service -/

/-- Give the consumer a result. A loop that pauses or is blocked takes it later. -/
def give (service : Service) (received : Received) : Service :=
  let service := { service with inbox := service.inbox ++ [received] }
  if service.phase = .listening then service.wake .consumer else service

/-- The service is to stop. -/
def signal (service : Service) : Service :=
  { service with yard := service.yard.signal }.wake .consumer

/-- Change the broker. -/
def setBroker (service : Service) (change : Broker → Broker) : Service :=
  { service with yard := { service.yard with broker := change service.yard.broker } }

/-- A client of the broker shows that it is alive. -/
def clientAlive (service : Service) (handle : HealthHandle) : Service :=
  { service with
    registry := service.registry.reportHealthy handle service.yard.shared.instant }

/-- The monotonic clock goes on. -/
def advance (service : Service) (millis : Nat) : Service :=
  let shared := { service.yard.shared with instant := service.yard.shared.instant + millis }
  { service with yard := { service.yard with shared := shared } }

/-- How long the end of the consumer loop is waited for, in milliseconds. -/
def joinLimit : Nat := Nat.pow 10 30

/-- Wait until the consumer loop has ended. -/
def join (service : Service) : Service :=
  if service.hasFinished then service else scene.playUntil joinLimit hasFinished service

end Service

/-- One step of a rehearsal of the service. -/
inductive ServiceStep
  | give (received : Received)
  | idle (millis : Nat)
  | fate (fate : Fate) (count : Nat)
  | refuse (offsets : List Int64)
  | closing (faults : ClosingFaults)
  | producerAlive
  | consumerAlive
  | advance (millis : Nat)
  | health
  | signal
  | join

/-- The answer to a step. Where events are told, they are those since the last time. -/
inductive ServiceAnswer
  | nothing
  | idled (events : List BrokerEvent) (guardSize : Nat) (running : Bool)
  | health (healthy : Bool) (components : List (String × ComponentStatus))
  | joined (events : List BrokerEvent) (guardSize : Nat) (failure : Option ProgramError)

/-- Take one step, of which the number of events told before is known. -/
def ServiceStep.perform (step : ServiceStep) (told : Nat) (service : Service) :
    ServiceAnswer × Nat × Service :=
  let log (service : Service) := service.yard.broker.log
  let silent (service : Service) := (ServiceAnswer.nothing, told, service)
  match step with
  | .give received => silent (service.give received)
  | .idle millis =>
    let service := Service.scene.pass millis service
    (.idled ((log service).drop told) service.yard.shared.guard.size (!service.hasFinished),
      (log service).length, service)
  | .fate f count => silent (service.setBroker fun broker => broker.ordainNext f count)
  | .refuse offsets => silent (service.setBroker fun broker => { broker with refused := offsets })
  | .closing faults => silent (service.setBroker fun broker => { broker with closing := faults })
  | .producerAlive => silent (service.clientAlive service.producer)
  | .consumerAlive => silent (service.clientAlive service.consumer)
  | .advance millis => silent (service.advance millis)
  | .health =>
    let now := service.yard.shared.instant
    (.health (service.registry.isHealthy now) (service.registry.components now), told, service)
  | .signal => silent service.signal
  | .join =>
    let service := service.join
    (.joined ((log service).drop told) service.yard.shared.guard.size service.failure?,
      (log service).length, service)

/-- Take all steps in order. -/
def serviceAll : List ServiceStep → Nat → Service → List ServiceAnswer × Service
  | [], _, service => ([], service)
  | step :: rest, told, service =>
    let (answer, told, service) := step.perform told service
    let (answers, service) := serviceAll rest told service
    (answer :: answers, service)

end MarketFeed.Rehearsal
