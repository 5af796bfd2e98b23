import MarketFeed.Proofs.Partition.Crew
import MarketFeed.Proofs.Partition.Workplace
import MarketFeed.Rehearsal.Service
import Mathlib.Logic.Relation

/-!
# The service, party by party

The parties of a service run in any order: its workers, the consumer loop and the sweeper. A
worker runs at a workplace of the broker; the historical store there may reply anything, and
while the worker waits for the store or for the broker, others may use the broker. Besides, the
consumer is given results, the service is told to stop, the broker changes its mind, and time
passes. Who runs when is left open, so every rehearsal is such a run.
-/

namespace MarketFeed.Rehearsal

open Relation (ReflTransGen)

/-- One request to a broker, or a change of what it will answer. -/
inductive Broker.Asked (broker : Broker) : Broker → Prop
  | publish (output : Output) : Asked broker (broker.publish output).2
  | store (next : Coordinates) : Asked broker (broker.store next).2
  | note (event : BrokerEvent) (h : ∀ record report, event ≠ .produced record report) :
      Asked broker (broker.note event)
  | change (fates : List (Fate × Nat)) (refused : List Int64) (closing : ClosingFaults) :
      Asked broker { broker with fates := fates, refused := refused, closing := closing }

/-- A workplace at a broker: it publishes and stores there, and others may use the broker while
the worker waits. -/
structure AtBroker (place : Workplace Broker) : Prop where
  lookup : ∀ id s broker, ReflTransGen Broker.Asked broker (place.lookup id s broker).2.2
  published : ∀ output broker, (place.publish output broker).1 = (broker.publish output).1
  publish : ∀ output broker,
    ReflTransGen Broker.Asked (broker.publish output).2 (place.publish output broker).2
  stored : ∀ next broker, (place.store next broker).1 = (broker.store next).1
  store : ∀ next broker,
    ReflTransGen Broker.Asked (broker.store next).2 (place.store next broker).2

/-- The workplace of a rehearsal is at the broker, where nobody else is meanwhile. -/
theorem atBroker_workplace (backfills : Bool) : AtBroker (workplace backfills) where
  lookup := fun _ _ _ => .refl
  published := fun _ _ => rfl
  publish := fun _ _ => .refl
  stored := fun _ _ => rfl
  store := fun _ _ => .refl

/-- A worker does nothing to the broker but ask it. -/
theorem AtBroker.keeps {place : Workplace Broker} (h : AtBroker place) (first : Broker) :
    place.Keeps (ReflTransGen Broker.Asked first) where
  surroundings :=
    { lookup := fun id s broker hreach => hreach.trans (h.lookup id s broker)
      publish := fun output broker hreach =>
        (hreach.tail (.publish output)).trans (h.publish output broker) }
  store := fun next broker hreach => (hreach.tail (.store next)).trans (h.store next broker)

/-- One step of a service. -/
inductive Service.Goes (service : Service) : Service → Prop
  | worker {place : Workplace Broker} (hplace : AtBroker place) (p : Partition) :
      Goes service { service with yard := service.yard.runWorkerAt place p }
  | consumer : Goes service service.runConsumer
  | sweeper : Goes service service.runSweeper
  | give (received : Received) : Goes service (service.give received)
  | signal : Goes service service.signal
  | alive {handle : HealthHandle} (h : handle = service.producer ∨ handle = service.consumer) :
      Goes service (service.clientAlive handle)
  | change (fates : List (Fate × Nat)) (refused : List Int64) (closing : ClosingFaults) :
      Goes service (service.setBroker fun broker =>
        { broker with fates := fates, refused := refused, closing := closing })
  /-- Time passes, or something else happens to what deliveries share. -/
  | elapse (s : Shared) : Goes service { service with yard := { service.yard with shared := s } }
  | schedule (agenda : Agenda Party) :
      Goes service { service with yard := { service.yard with agenda := agenda } }

/-! ## Handing a message over -/

namespace Yard

variable {yard yard' : Yard} {m : InputMessage} {handover : Handover}

/-- Preparing for a message hires a worker for it. -/
theorem prepare_crew (yard : Yard) (m : InputMessage) :
    (yard.prepare m).crew = (yard.crew.hire m.partition).2 ∧
      (yard.prepare m).stopping = yard.stopping ∧ (yard.prepare m).broker = yard.broker := by
  unfold prepare
  split <;> rename_i h <;> rw [h]
  · have hsame : (yard.crew.hire m.partition).2 = yard.crew := by
      unfold Crew.hire at h ⊢
      split <;> simp_all
    rw [h] at hsame
    exact ⟨hsame.symm, rfl, rfl⟩
  · exact ⟨rfl, rfl, rfl⟩

/-- A message is handed over to the crew. -/
theorem handOver_crew (h : yard.handOver m = (handover, yard')) :
    yard.crew.handOver m = (handover, yard'.crew) ∧ yard'.stopping = yard.stopping ∧
      yard'.broker = yard.broker ∧ yard'.shared = yard.shared := by
  unfold handOver at h
  split at h
  · rename_i crew hcrew
    dsimp only at h
    split at h <;> cases h <;> exact ⟨hcrew, rfl, rfl, rfl⟩
  · rename_i other crew hother hcrew
    cases h
    obtain ⟨rfl, -⟩ | ⟨-, hsame, -⟩ | ⟨-, hsame⟩ := Crew.handOver_cases hcrew
    · exact absurd rfl hother
    · exact ⟨hsame ▸ hcrew, rfl, rfl, rfl⟩
    · exact ⟨hsame ▸ hcrew, rfl, rfl, rfl⟩

end Yard

/-! ## The broker -/

/-- What has become of the broker by then. -/
def Service.Asks (service service' : Service) : Prop :=
  ReflTransGen Broker.Asked service.yard.broker service'.yard.broker

namespace Service

/-- Nothing that leaves the broker alone asks it. -/
theorem Asks.of_eq {service service' : Service}
    (h : service'.yard.broker = service.yard.broker) : service.Asks service' := by
  rw [Asks, h]

/-- Requests follow on requests. -/
theorem Asks.trans {service service' service'' : Service} (h : service.Asks service')
    (h' : service'.Asks service'') : service.Asks service'' := ReflTransGen.trans h h'

/-- What is asked after nothing has happened to the broker is asked from there. -/
theorem Asks.since {service service' service'' : Service} (h : service'.Asks service'')
    (hsame : service'.yard.broker = service.yard.broker) : service.Asks service'' :=
  (Asks.of_eq hsame).trans h

/-- Handing a message over is no business of the broker. -/
theorem dispatch_asks {service service' : Service} {m : InputMessage} {done : Bool}
    (h : service.dispatch m = (done, service')) : service.Asks service' := by
  have hprepared := (service.yard.prepare_crew m).2.2
  unfold dispatch at h
  split at h <;> rename_i hhandOver <;> cases h <;>
    exact .of_eq ((Yard.handOver_crew hhandOver).2.2.1.trans hprepared)

/-- The last requests are to flush, to commit and to unsubscribe. -/
theorem finish_asks (service : Service) : service.Asks service.finish :=
  .tail (.tail (.tail .refl (.note _ (by simp))) (.note _ (by simp))) (.note _ (by simp))

/-- Closing asks the broker nothing but the last requests. -/
theorem close_asks (service : Service) (last : Nat) : service.Asks (service.close last) := by
  unfold close
  split
  · exact service.finish_asks
  · exact .of_eq rfl

/-- Leaving the loop asks the broker nothing but the last requests. -/
theorem leave_asks (service : Service) : service.Asks service.leave := by
  unfold leave
  exact (close_asks _ _).since rfl

/-- Taking results asks the broker nothing but the last requests. -/
theorem listen_asks (service : Service) (inbox : List Received) :
    service.Asks (service.listen inbox) := by
  induction inbox generalizing service with
  | nil => exact .of_eq rfl
  | cons received rest ih =>
    unfold listen
    dsimp only
    split
    · split <;> rename_i hdispatch
      · exact ((dispatch_asks hdispatch).trans (ih _)).since rfl
      · exact (dispatch_asks hdispatch).since rfl
    · exact (ih _).since rfl
    · exact .of_eq rfl
    · exact (leave_asks _).since rfl

/-- The loop asks the broker nothing but the last requests. -/
theorem goOn_asks (service : Service) : service.Asks service.goOn := by
  unfold goOn
  split
  · exact service.leave_asks
  · apply (listen_asks _ _).since
    unfold reportIfDue
    split <;> rfl

/-- The consumer loop asks the broker nothing but the last requests. -/
theorem runConsumer_asks (service : Service) : service.Asks service.runConsumer := by
  unfold runConsumer
  split
  · exact service.goOn_asks
  · split
    · exact service.goOn_asks
    · exact .of_eq rfl
  · split <;> rename_i hdispatch
    · exact (dispatch_asks hdispatch).trans (goOn_asks _)
    · exact dispatch_asks hdispatch
  · exact service.close_asks _
  · exact .of_eq rfl

/-- Sweeping the guard is no business of the broker. -/
theorem runSweeper_asks (service : Service) : service.Asks service.runSweeper := by
  unfold runSweeper
  dsimp only
  split <;> exact .of_eq rfl

/-- A service does nothing to the broker but ask it. -/
theorem Goes.asks {service service' : Service} (h : service.Goes service') :
    service.Asks service' := by
  cases h with
  | worker hplace p =>
    unfold Asks Yard.runWorkerAt
    dsimp only
    split
    · exact .refl
    · exact (hplace.keeps service.yard.broker).run _ _ _ _ .refl
  | consumer => exact service.runConsumer_asks
  | sweeper => exact service.runSweeper_asks
  | give received =>
    unfold Asks Service.give
    dsimp only
    split <;> exact .refl
  | change fates refused closing => exact .single (.change fates refused closing)
  | _ => exact .of_eq rfl

/-- Over a whole run, a service does nothing to the broker but ask it. -/
theorem asks_of_goes {service service' : Service} (h : ReflTransGen Goes service service') :
    service.Asks service' := by
  induction h with
  | refl => exact .of_eq rfl
  | tail _ hstep ih => exact ih.trans hstep.asks

end Service

/-! ## Rehearsals -/

namespace Scene

variable {τ σ : Type} {scene : Scene τ σ} {R : σ → σ → Prop}

/-- What relates the worlds before and after a party runs, and before and after the agenda changes,
relates those before and after all have run. -/
theorem settle_reaches (hrun : ∀ party x, ReflTransGen R x (scene.run party x))
    (hset : ∀ agenda x, ReflTransGen R x (scene.setAgenda agenda x)) (rounds : Nat) (x : σ) :
    ReflTransGen R x (scene.settle rounds x) := by
  induction rounds generalizing x with
  | zero => exact .refl
  | succ rounds ih =>
    unfold settle
    dsimp only
    split
    · exact .refl
    · exact ((hset _ x).trans (hrun _ _)).trans (ih _)

/-- So it does for the worlds before and after the clock goes on. -/
theorem playUntil_reaches [DecidableEq τ] (hrun : ∀ party x, ReflTransGen R x (scene.run party x))
    (hset : ∀ agenda x, ReflTransGen R x (scene.setAgenda agenda x)) (last : Nat)
    (isOver : σ → Bool) (x : σ) : ReflTransGen R x (scene.playUntil last isOver x) := by
  unfold playUntil
  generalize roundLimit = rounds
  induction rounds generalizing x with
  | zero => exact .refl
  | succ rounds ih =>
    have hsettled := settle_reaches hrun hset roundLimit x
    unfold play
    dsimp only
    split
    · exact hsettled
    · split
      · split
        · exact (hsettled.trans (hset _ _)).trans (ih _)
        · exact hsettled.trans (hset _ _)
      · exact hsettled.trans (hset _ _)

end Scene

namespace Service

/-- A party that runs takes steps of the service. -/
theorem run_goes (party : Party) (service : Service) :
    ReflTransGen Goes service (scene.run party service) := by
  cases party with
  | consumer => exact .single .consumer
  | sweeper => exact .single .sweeper
  | worker p =>
    have hworker : Goes service { service with
        yard := service.yard.runWorkerAt (workplace service.backfills) p } :=
      .worker (atBroker_workplace service.backfills) p
    change ReflTransGen Goes service (service.runWorker p)
    unfold runWorker
    dsimp only
    split
    · exact .tail (.single hworker) (.schedule _)
    · exact .single hworker

end Service

end MarketFeed.Rehearsal
