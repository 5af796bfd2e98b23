import MarketFeed.Proofs.Consumer.Rehearsal
import MarketFeed.Proofs.Service.Records

/-!
# The life of a service

From its start on, a service gives its loop all that the consumer was given: the loop has taken the
first of these results, in the order they were given, and the others still lie there. The workers,
the sweeper and the clients take none, and only the loop flushes, commits and unsubscribes. In its
turn, the loop goes on as soon as it can, and does not end the turn before it has to wait.
-/

namespace MarketFeed.Rehearsal

open Relation (ReflTransGen)

namespace Service

/-- What a service was given since a first moment, in order, and where it is by then. The loop has
its turn whenever it likes. What others do leaves the results alone, and the last requests to the
broker, too. -/
inductive Life (first : Service) : List Received → Service → Prop
  | start : Life first [] first
  | give {given : List Received} {service : Service} (hlife : Life first given service)
      (received : Received) : Life first (given ++ [received]) (service.give received)
  | turn {given : List Received} {service : Service} (hlife : Life first given service) :
      Life first given service.runConsumer
  | other {given : List Received} {service service' : Service} (hlife : Life first given service)
      (hgoes : service.Goes service') (hinbox : service'.inbox = service.inbox)
      (hasked : service'.asked = service.asked) : Life first given service'

variable {component : String} {first service service' : Service} {loop : Loop}
  {given more : List Received}

namespace Life

/-- A life goes on with another one. -/
theorem append (h : Life first given service) (hmore : Life service more service') :
    Life first (given ++ more) service' := by
  induction hmore with
  | start => rwa [List.append_nil]
  | give _ received ih =>
    rw [← List.append_assoc]
    exact ih.give received
  | turn _ ih => exact ih.turn
  | other _ hgoes hinbox hasked ih => exact ih.other hgoes hinbox hasked

/-- Whatever happens to a service, it takes its steps. -/
theorem goes (h : Life first given service) : ReflTransGen Goes first service := by
  induction h with
  | start => exact .refl
  | give _ received ih => exact ih.tail (.give received)
  | turn _ ih => exact ih.tail .consumer
  | other _ hgoes _ _ ih => exact ih.tail hgoes

/-- Whatever happens to a service, its loop takes steps. It takes the results in the order they were
given, and the requests that were made are its acts. -/
theorem shows (h : Life first given service) (hfirst : first.Shows component loop) :
    ∃ acts loop', Loop.Run component loop acts loop' ∧ service.Shows component loop' ∧
      first.inbox ++ given = results acts ++ service.inbox ∧
        service.asked = first.asked ++ acts.filter Act.asksBroker := by
  induction h with
  | start => exact ⟨[], loop, .nil, hfirst, List.append_nil _, (List.append_nil _).symm⟩
  | give _ received ih =>
    obtain ⟨acts, loop', hrun, hshows, hinbox, hasked⟩ := ih
    obtain ⟨hshows', hlast, hsame⟩ := hshows.give received
    refine ⟨acts, loop', hrun, hshows', ?_, hsame.trans hasked⟩
    rw [← List.append_assoc, hinbox, List.append_assoc, ← hlast]
  | turn _ ih =>
    obtain ⟨acts, middle, hrun, hshows, hinbox, hasked⟩ := ih
    obtain ⟨more, loop', hmore, hshows', -, htaken, hmade⟩ := hshows.runConsumer
    refine ⟨acts ++ more, loop', hrun.append hmore, hshows', ?_, ?_⟩
    · rw [hinbox, htaken, results_append, List.append_assoc]
    · rw [hmade, hasked, List.filter_append, List.append_assoc]
  | other _ hgoes hleft hkept ih =>
    obtain ⟨acts, middle, hrun, hshows, hinbox, hasked⟩ := ih
    obtain ⟨more, loop', hmore, hshows', htaken, hmade⟩ := hshows.goes hgoes hleft hkept
    refine ⟨acts ++ more, loop', hrun.append hmore, hshows', ?_, ?_⟩
    · rw [hinbox, results_append, htaken, List.append_nil, hleft]
    · rw [hkept, hasked, List.filter_append, hmade, List.append_nil]

/-- What leads on without a result, step by step, leads on so as a whole. -/
theorem of_reaches (h : ReflTransGen (fun x y => Life x [] y) service service') :
    Life service [] service' := by
  induction h with
  | refl => exact .start
  | tail _ hlast ih => exact ih.append hlast

end Life

/-! ## Rehearsals -/

/-- The workers of a rehearsal make none of the last requests to the broker. -/
theorem keeps_acts (backfills : Bool) (acts : List Act) : (workplace backfills).Keeps fun broker =>
    broker.log.filterMap BrokerEvent.act? = acts where
  surroundings :=
    { lookup := fun _ _ _ h => h
      publish := fun output broker h => by
        have hpublish : (workplace backfills).publish output broker = broker.publish output := rfl
        rw [hpublish, (broker.publish_log output).2, filterMap_snoc, h]
        exact List.append_nil _ }
  store := fun next broker h => by
    have hstore : ((workplace backfills).store next broker).2.log =
      broker.log ++ [.offsetStored next (broker.store next).1] := rfl
    rw [hstore, filterMap_snoc, h]
    exact List.append_nil _

/-- A party that runs leads on without a result. -/
theorem run_life (party : Party) (service : Service) :
    Life service [] (scene.run party service) := by
  cases party with
  | consumer => exact .turn .start
  | sweeper =>
    have hsame : service.runSweeper.inbox = service.inbox ∧
        service.runSweeper.asked = service.asked := by
      unfold runSweeper
      dsimp only
      split <;> exact ⟨rfl, rfl⟩
    exact .other .start .sweeper hsame.1 hsame.2
  | worker p =>
    have hworker : Life service [] { service with
        yard := service.yard.runWorkerAt (workplace service.backfills) p } := by
      refine .other .start (.worker (atBroker_workplace service.backfills) p) rfl ?_
      unfold asked Yard.runWorkerAt
      dsimp only
      split
      · rfl
      · exact (keeps_acts service.backfills _).run _ _ _ _ rfl
    change Life service [] (service.runWorker p)
    unfold runWorker
    dsimp only
    split
    · exact hworker.other (.schedule _) rfl rfl
    · exact hworker

/-- While time passes, a service is led on without a result. -/
theorem playUntil_life (last : Nat) (isOver : Service → Bool) (service : Service) :
    Life service [] (scene.playUntil last isOver service) :=
  .of_reaches <| Scene.playUntil_reaches (fun party x => .single (run_life party x))
    (fun agenda _ => .single (.other .start (.schedule agenda) rfl rfl)) last isOver service

end Service

/-- The result that the consumer is given in a step. -/
def ServiceStep.given? : ServiceStep → Option Received
  | give received => some received
  | _ => none

namespace Service

/-- A step of a rehearsal leads on with the result that it gives, if any. -/
theorem perform_life (step : ServiceStep) (told : Nat) (service : Service) :
    Life service step.given?.toList (step.perform told service).2.2 := by
  cases step with
  | give received => exact .give .start received
  | idle millis =>
    change Life service [] (scene.pass millis service)
    exact playUntil_life _ _ service
  | fate fate count => exact .other .start (.change _ _ _) rfl rfl
  | refuse offsets => exact .other .start (.change _ _ _) rfl rfl
  | closing faults => exact .other .start (.change _ _ _) rfl rfl
  | producerAlive => exact .other .start (.alive (.inl rfl)) rfl rfl
  | consumerAlive => exact .other .start (.alive (.inr rfl)) rfl rfl
  | advance millis => exact .other .start (.elapse _) rfl rfl
  | health => exact .start
  | signal => exact .other .start .signal rfl rfl
  | join =>
    change Life service [] service.join
    unfold join
    split
    · exact .start
    · exact playUntil_life _ _ service

/-- Every rehearsal is a life, with the results that it gives. -/
theorem serviceAll_life (steps : List ServiceStep) (told : Nat) (service : Service) :
    Life service (steps.filterMap ServiceStep.given?) (serviceAll steps told service).2 := by
  induction steps generalizing told service with
  | nil => exact .start
  | cons step rest ih =>
    have hlife := (perform_life step told service).append
      (ih (step.perform told service).2.1 (step.perform told service).2.2)
    rw [List.filterMap_cons]
    cases hgiven : step.given? <;> rw [hgiven] at hlife <;> exact hlife

/-- So every rehearsal is a run of the service. -/
theorem serviceAll_goes (steps : List ServiceStep) (told : Nat) (service : Service) :
    ReflTransGen Goes service (serviceAll steps told service).2 :=
  (serviceAll_life steps told service).goes

/-! ## The whole of it -/

/-- A service that starts shows a loop that listens and reports for a component of its own. Nothing
was given to it, and none of the last requests was made. -/
theorem shows_of_start {c : Config} {wall : Int64} {faults : StartupFaults} {first : Service}
    {broker : Broker} (h : start c wall faults = (.ok first, broker)) :
    first.Shows "consumer_loop" (.begin first.yard.crew false first.registry) ∧
      first.inbox = [] ∧ first.asked = [] := by
  have hasked : ((c.start faults.factory).run (Broker.new c.outputTopics)).2.log.filterMap
      BrokerEvent.act? = [] := by
    apply KeepsBroker.start (P := fun broker => broker.log.filterMap BrokerEvent.act? = []) _ c
      faults _ rfl
    intro event broker hconnects hquiet
    rw [Broker.note, filterMap_snoc, hquiet]
    cases event <;> first | rfl | cases hconnects
  unfold start at h
  rcases hstart : (c.start faults.factory).run (Broker.new c.outputTopics) with
    ⟨_ | store, asked⟩ <;> rw [hstart] at h hasked <;> cases h
  have hothers : "rdkafka_producer" ≠ "consumer_loop" ∧ "rdkafka_consumer" ≠ "consumer_loop" := by
    decide
  refine ⟨?_, rfl, hasked⟩
  exact
    { crew := rfl, stopping := rfl, errors := rfl, registry := rfl, stoppedBy := rfl
      reporter := rfl, others := hothers, phase := .listening, hired := nofun }

/-- The loop loses nothing and closes in order, whatever the consumer answers and whenever it is
noticed that the service is to stop. Every run of the loop keeps the order. Whatever happens to a
service since its start is a run of its loop, which has taken what was given as far as it does not
lie there any more, and has made the last requests; every rehearsal is a case of this. In its turn
the loop of a service takes steps of its own, and it does so until it has to wait. -/
theorem loop_keeps_order :
    (∀ component crew stopping registry acts loop,
      Loop.Run component (.begin crew stopping registry) acts loop →
        Loop.Regular component (.begin crew stopping registry) acts loop) ∧
    (∀ c wall faults first broker given service, start c wall faults = (.ok first, broker) →
      Life first given service → ∃ acts loop,
        Loop.Run "consumer_loop" (.begin first.yard.crew false first.registry) acts loop ∧
          service.Shows "consumer_loop" loop ∧ given = results acts ++ service.inbox ∧
            service.asked = acts.filter Act.asksBroker) ∧
    (∀ steps told first,
      Life first (steps.filterMap ServiceStep.given?) (serviceAll steps told first).2) ∧
    ∀ component (service : Service) loop, service.Shows component loop →
      Plays component loop service.inbox service.asked service.runConsumer ∧
        service.runConsumer.Waits := by
  refine ⟨?_, ?_, serviceAll_life, ?_⟩
  · intro component crew stopping registry acts loop hrun
    exact hrun.isRegular
  · intro c wall faults first broker given service hstart hlife
    obtain ⟨hshows, hinbox, hasked⟩ := shows_of_start hstart
    have hlived := hlife.shows hshows
    rwa [hinbox, hasked] at hlived
  · intro component service loop hshows
    exact ⟨hshows.runConsumer, service.runConsumer_waits⟩

/-- A failed authentication after a message: the message is dispatched, the closing goes on though
the workers take too long and the flush fails, and the loop fails and is left unhealthy. A service
that is given both right after its start takes them in this order, in one turn of its loop. -/
theorem loop_keeps_order_of_authentication :
    let m : InputMessage := ⟨⟨"market_ticks_raw", 0, 7⟩, []⟩
    let e : BrokerError := .global .authentication
    let given (service : Service) : Service :=
      (serviceAll [.give (.message m), .give (.error e)] 0 service).2
    (∃ loop, Loop.Run "consumer_loop" (.begin (.new 1) false [])
        [.took (.message m), .called m, .handed m .queued, .took (.error e), .stopped e, .dismissed,
          .waited false, .flushed (some (.flush .messageTimedOut)), .committed none,
          .unsubscribed] loop ∧
      loopFailure? loop.stoppedBy = some e ∧ loop.registry.isHealthy 0 = false) ∧
    ∃ first loop acts loop', (start { backfillEnabled := false } 0 noFaults).1 = .ok first ∧
      Life first [.message m, .error e] (given first) ∧
      (given first).Shows "consumer_loop" loop ∧
      Plays "consumer_loop" loop [.message m, .error e] [] (given first).runConsumer ∧
      (given first).runConsumer.Waits ∧
      Loop.Run "consumer_loop" (.begin first.yard.crew false first.registry) acts loop' ∧
      (given first).runConsumer.Shows "consumer_loop" loop' ∧
      results acts = [.message m, .error e] := by
  intro m e given
  constructor
  · have h : Loop.Run "consumer_loop" (.begin (.new 1) false []) []
      (.begin (.new 1) false []) := .nil
    have h := h.snoc (.take rfl (.message m) [])
    have h := h.snoc (.call rfl)
    have h := h.snoc (.hand rfl rfl (by decide))
    have h := h.snoc (.take rfl (.error e) [])
    have h := h.snoc (.stop rfl)
    have h := h.snoc (.dismiss rfl)
    have h := h.snoc (.wait rfl false nofun)
    have h := h.snoc (.flush rfl (some (.flush .messageTimedOut)))
    have h := h.snoc (.commit rfl none)
    have h := h.snoc (.unsubscribe rfl)
    have hregular := loop_keeps_order.1 _ _ _ _ _ _ h
    have hfailure := (hregular.failure rfl e).mpr
      ⟨List.mem_of_getElem? (i := 3) rfl, .authentication, nofun⟩
    have hunhealthy := hregular.unhealthy rfl e .authentication
      (List.mem_of_getElem? (i := 3) rfl) 0
    exact ⟨_, h, hfailure, hunhealthy.2⟩
  · obtain ⟨first, broker, hstart, hinbox, hasked, htaken⟩ : ∃ first broker,
        start { backfillEnabled := false } 0 noFaults = (.ok first, broker) ∧
          (given first).inbox = [.message m, .error e] ∧ (given first).asked = [] ∧
            (given first).runConsumer.inbox = [] := by
      have hqueue := queueKibibytes?_standard
      simp only [start, Config.start, hqueue]
      exact ⟨_, _, rfl, rfl, rfl, rfl⟩
    have hlife : Life first [.message m, .error e] (given first) :=
      loop_keeps_order.2.2.1 [.give (.message m), .give (.error e)] 0 first
    obtain ⟨_, loop, -, hshows, -⟩ := loop_keeps_order.2.1 _ _ _ first broker _ _ hstart hlife
    obtain ⟨hplays, hwaits⟩ := loop_keeps_order.2.2.2 "consumer_loop" (given first) loop hshows
    rw [hinbox, hasked] at hplays
    obtain ⟨acts, loop', hrun, hshows', hresults, -⟩ :=
      loop_keeps_order.2.1 _ _ _ first broker _ _ hstart hlife.turn
    rw [htaken, List.append_nil] at hresults
    exact ⟨first, loop, acts, loop', congrArg Prod.fst hstart, hlife, hshows, hplays, hwaits, hrun,
      hshows', hresults.symm⟩

/-- The signal to stop does not stop the loop: a message that is received later may be dispatched,
as long as the loop has not noticed. And the pause after an error depends on its code, too. -/
theorem dispatched_after_signal :
    let m : InputMessage := ⟨⟨"market_ticks_raw", 0, 7⟩, []⟩
    let failed (code : BrokerCode) : Received := .error (.messageConsumption code)
    let first : Loop := .begin (.new 1) false []
    (∃ loop, Loop.Run "consumer_loop" first
      [.signalled, .took (.message m), .called m, .handed m .queued, .noticed] loop) ∧
    (∃ loop, Loop.Run "consumer_loop" first [.took (failed .fail), .paused 100] loop) ∧
    ∃ loop, Loop.Run "consumer_loop" first
      [.took (failed .offsetOutOfRange), .paused 500] loop := by
  intro m failed first
  have h : Loop.Run "consumer_loop" first [] first := .nil
  refine ⟨?_, ?_, ?_⟩
  · have h := h.snoc .signal
    have h := h.snoc (.take rfl (.message m) [])
    have h := h.snoc (.call rfl)
    have h := h.snoc (.hand rfl rfl (by decide))
    exact ⟨_, h.snoc (.notice rfl rfl)⟩
  · exact ⟨_, (h.snoc (.take rfl (failed .fail) [])).snoc (.pause rfl)⟩
  · exact ⟨_, (h.snoc (.take rfl (failed .offsetOutOfRange) [])).snoc (.pause rfl)⟩

end Service

end MarketFeed.Rehearsal
