import MarketFeed.Proofs.Consumer.Order
import MarketFeed.Proofs.Service.Step
import MarketFeed.Rehearsal.Program

/-!
# The loop of a service

The loop of a service runs until it has to wait: it takes one result after the other, and
dispatches the messages. What it does so at once are steps of the loop, and it stays at what the
phase of the service shows. It waits only where there is nothing it could do: no result is left that
it could take, the pause is not over, the message has no place, or the workers are not done. The
other parties do nothing to the loop but what the steps leave open to them.
-/

namespace MarketFeed

/-- The act that a request to the broker belongs to. -/
def Rehearsal.BrokerEvent.act? : Rehearsal.BrokerEvent → Option Act
  | flushed _ failure => some (.flushed failure)
  | committed _ failure => some (.committed failure)
  | unsubscribed => some .unsubscribed
  | _ => none

/-- The act is a request to the broker. -/
def Act.asksBroker : Act → Bool
  | flushed _ | committed _ | unsubscribed => true
  | _ => false

namespace Rehearsal

open Relation (ReflTransGen)

/-- What the loop is at, as the phase of the service shows it. -/
inductive LoopPhase.Shows : LoopPhase → LoopStage → Prop
  | listening : Shows .listening .listening
  | pausing (last millis : Nat) : Shows (.pausing last) (.taken (.pause millis))
  | blocked (m : InputMessage) : Shows (.blocked m) (.dispatching m)
  | closing (last : Nat) : Shows (.closing last) .waiting
  | finished : Shows .finished .finished

namespace Service

/-- The requests to the broker that are acts of the loop, in order. -/
def asked (service : Service) : List Act :=
  service.yard.broker.log.filterMap BrokerEvent.act?

/-- The loop is that of a service, but for what it is at. -/
structure Mirrors (component : String) (service : Service) (loop : Loop) : Prop where
  crew : loop.crew = service.yard.crew
  stopping : loop.stopping = service.yard.stopping
  errors : loop.errors = service.errors
  registry : loop.registry = service.registry
  stoppedBy : loop.stoppedBy = service.stoppedBy
  reporter : service.loop.component = component
  others : service.producer.component ≠ component ∧ service.consumer.component ≠ component

/-- The loop is that of a service. A message waits for a place only where a worker was hired. -/
structure Shows (component : String) (service : Service) (loop : Loop) : Prop extends
    Mirrors component service loop where
  phase : service.phase.Shows loop.stage
  hired : ∀ m, service.phase = .blocked m → (service.yard.crew.worker? m.partition).isSome = true

/-- From a loop, one that a service shows is reached by what the loop does, while nobody else does
anything. The results are taken from an inbox, and the requests are added to those made before. -/
def Plays (component : String) (loop : Loop) (inbox : List Received) (before : List Act)
    (service : Service) : Prop :=
  ∃ acts loop', Loop.Run component loop acts loop' ∧ service.Shows component loop' ∧
    (∀ act ∈ acts, act.ofLoop = true) ∧ inbox = results acts ++ service.inbox ∧
      service.asked = before ++ acts.filter Act.asksBroker

/-- The loop has to wait: there is no result and the service is not to stop, or the pause is not
over, or the message that is to be handed over has no place, or not all workers have ended though
there is time left for it. A loop that has finished waits for nothing. -/
def Waits (service : Service) : Prop :=
  match service.phase with
  | .listening => service.inbox = [] ∧ service.yard.stopping = false
  | .pausing last => service.clock < last
  | .blocked m => (service.yard.crew.handOver m).1 = .waiting
  | .closing last => service.yard.crew.hasEnded = false ∧ service.clock < last
  | .finished => True

section Loop

variable {component : String} {service service' : Service} {loop loop' : Loop}
  {inbox : List Received} {before : List Act} {act : Act} {m : InputMessage}

/-- What is shown is reached without a step. -/
theorem Shows.plays (h : service.Shows component loop) :
    Plays component loop service.inbox service.asked service :=
  ⟨[], loop, .nil, h, nofun, rfl, (List.append_nil _).symm⟩

/-- What is reached after a step of the loop is reached from before it, with the step. -/
theorem Plays.since (hstep : Loop.Step component loop act loop') (hown : act.ofLoop = true)
    (hquiet : act.asksBroker = false) (h : Plays component loop' inbox before service) :
    Plays component loop (act.received?.toList ++ inbox) before service := by
  obtain ⟨acts, last, hrun, hshows, howns, hinbox, hasked⟩ := h
  refine ⟨act :: acts, last, (Loop.Run.single hstep).append hrun, hshows, ?_, ?_, ?_⟩
  · exact List.forall_mem_cons.mpr ⟨hown, howns⟩
  · rw [hinbox, ← List.append_assoc]
    cases act <;> rfl
  · rw [hasked, List.filter_cons_of_neg (by simp [hquiet])]

/-- The last requests are made in order, whatever becomes of them. -/
theorem Mirrors.finish (h : service.Mirrors component loop) (hstage : loop.stage = .flushing) :
    Plays component loop service.inbox service.asked service.finish := by
  let flushed := (service.yard.broker.flush service.config.producerShutdown).1
  let committed := (service.yard.broker.flush service.config.producerShutdown).2.commit.1
  refine ⟨[.flushed flushed, .committed committed, .unsubscribed], _,
    ((Loop.Run.nil.snoc (.flush hstage flushed)).snoc (.commit rfl committed)).snoc
      (.unsubscribe rfl), { h with phase := .finished, hired := nofun }, by simp [Act.ofLoop], rfl,
      ?_⟩
  have hlog : service.finish.yard.broker.log = service.yard.broker.log ++
      [.flushed service.config.producerShutdown flushed] ++
        [.committed (service.yard.broker.note
          (.flushed service.config.producerShutdown flushed)).positions committed] ++
          [.unsubscribed] := rfl
  rw [asked, hlog, filterMap_snoc, filterMap_snoc, filterMap_snoc, List.append_assoc,
    List.append_assoc]
  rfl

/-- A loop that waits for the workers finishes when they have ended or the time for it is over. -/
theorem Mirrors.close (h : service.Mirrors component loop) (hstage : loop.stage = .waiting)
    {phase : Nat} (hphase : service.phase = .closing phase) (last : Nat) :
    Plays component loop service.inbox service.asked (service.close last) := by
  unfold Service.close
  split
  · have hmirrors : service.Mirrors component { loop with stage := .flushing } := { h with }
    exact .since (.wait hstage loop.crew.hasEnded id) rfl rfl (hmirrors.finish rfl)
  · have hshows : service.Shows component loop :=
      { h with
        phase := by rw [hphase, hstage]; exact .closing phase
        hired := fun m hblocked => by cases hphase.symm.trans hblocked }
    exact hshows.plays

/-- A loop that leaves dismisses the workers, and closes. -/
theorem Mirrors.leave (h : service.Mirrors component loop) (hstage : loop.stage = .leaving) :
    Plays component loop service.inbox service.asked service.leave := by
  let last := service.clock + service.config.shutdownTimeout
  let left : Service :=
    { service with yard := service.yard.dismiss, phase := .closing last }.waitUntil last .consumer
  have hmirrors : left.Mirrors component
      { loop with crew := loop.crew.dismiss, stage := .waiting } :=
    { h with crew := by rw [h.crew]; rfl }
  exact .since (.dismiss hstage) rfl rfl (hmirrors.close rfl rfl last)

/-! ## Taking results -/

/-- The service when a worker is hired for a message. -/
def prepared (service : Service) (m : InputMessage) : Service :=
  { service with yard := service.yard.prepare m }

/-- A worker is hired only once. -/
theorem prepared_eq (h : (service.yard.crew.worker? m.partition).isSome = true) :
    service.prepared m = service := by
  obtain ⟨w, hw⟩ := Option.isSome_iff_exists.mp h
  simp [prepared, Yard.prepare, Crew.hire, hw]

/-- Dispatching a message hands it over, or has to wait for a place. -/
theorem Mirrors.dispatch {done : Bool} (h : (service.prepared m).Mirrors component loop)
    (hdispatch : service.dispatch m = (done, service')) :
    service'.inbox = service.inbox ∧ service'.asked = service.asked ∧
      if done then
        ∃ handover crew, handover ≠ .waiting ∧ loop.crew.handOver m = (handover, crew) ∧
          service'.Mirrors component { loop with crew := crew, stage := .listening }
      else service'.Mirrors component loop ∧ service'.phase = .blocked m ∧
        (service'.yard.crew.worker? m.partition).isSome = true := by
  obtain ⟨hprepared, hstopping, hbroker⟩ := service.yard.prepare_crew m
  unfold Service.dispatch at hdispatch
  split at hdispatch
  · rename_i yard hhandOver
    cases hdispatch
    obtain ⟨hcrew, hstopping', hbroker', -⟩ := Yard.handOver_crew hhandOver
    have hsame := Crew.handOver_of_waiting hcrew
    refine ⟨rfl, ?_, { h with crew := ?_, stopping := ?_ }, rfl, ?_⟩
    · simp only [asked, hbroker', hbroker]
    · exact h.crew.trans hsame.symm
    · exact h.stopping.trans hstopping'.symm
    · rw [hsame, hprepared, Crew.worker?_hire, if_pos rfl]
      rfl
  · rename_i handover yard hdone hhandOver
    cases hdispatch
    obtain ⟨hcrew, hstopping', hbroker', -⟩ := Yard.handOver_crew hhandOver
    refine ⟨rfl, ?_, handover, yard.crew, hdone, ?_, { h with crew := rfl, stopping := ?_ }⟩
    · simp only [asked, hbroker', hbroker]
    · rw [h.crew]
      exact hcrew
    · exact h.stopping.trans hstopping'.symm

/-- From a message that is being dispatched, the loop goes on once the dispatch has ended. -/
theorem Mirrors.goOnAfter (h : (service.prepared m).Mirrors component loop)
    (hstage : loop.stage = .dispatching m) {goOn : Service → Service}
    (hnext : ∀ service' loop', service'.Mirrors component loop' → loop'.stage = .listening →
      service'.inbox = service.inbox →
        Plays component loop' inbox service'.asked (goOn service'))
    (hsame : inbox = service.inbox) :
    Plays component loop inbox service.asked
      (match service.dispatch m with
        | (true, service') => goOn service'
        | (false, service') => service') := by
  split <;> rename_i hdispatch
  · obtain ⟨hinbox, hasked, handover, crew, hdone, hcrew, hmirrors⟩ := h.dispatch hdispatch
    rw [← hasked]
    exact .since (.hand hstage hcrew hdone) rfl rfl (hnext _ _ hmirrors rfl hinbox)
  · obtain ⟨hinbox, hasked, hmirrors, hphase, hhired⟩ := h.dispatch hdispatch
    have hshows : Shows component _ loop :=
      { hmirrors with
        phase := by rw [hphase, hstage]; exact .blocked m
        hired := fun m' hblocked => by
          cases hphase.symm.trans hblocked
          exact hhired }
    rw [← hasked, hsame, ← hinbox]
    exact hshows.plays

/-- Before a message is handed over, a worker is hired for it. -/
theorem Mirrors.prepare (h : service.Mirrors component loop) (m : InputMessage) :
    (service.prepared m).Mirrors component
      { loop with crew := (loop.crew.hire m.partition).2, stage := .dispatching m } :=
  { h with
    crew := by rw [h.crew]; exact (service.yard.prepare_crew m).1.symm
    stopping := h.stopping.trans (service.yard.prepare_crew m).2.1.symm }

/-- After an error that it survives, the loop pauses, and waits for the end of the pause. -/
theorem Mirrors.pause {millis : Nat} (h : service.Mirrors component loop)
    (hstage : loop.stage = .taken (.pause millis)) (last : Nat) :
    ({ service with phase := .pausing last }.waitUntil last .consumer).Shows component loop :=
  { h with
    phase := by rw [hstage]; exact .pausing last millis
    hired := fun _ hblocked => by cases hblocked }

/-- An error stops the loop: it reports that it is unhealthy, and leaves. -/
theorem Mirrors.stop {e : BrokerError} (h : service.Mirrors component loop)
    (hstage : loop.stage = .taken (.stop e)) :
    Plays component loop service.inbox service.asked
      { service with
        registry := service.registry.report service.loop.component .unhealthy
        stoppedBy := some e }.leave := by
  have hstopped : Mirrors component
      { service with
        registry := service.registry.report service.loop.component .unhealthy
        stoppedBy := some e }
      { loop with
        registry := loop.registry.report component .unhealthy
        stage := .leaving
        stoppedBy := some e } :=
    { h with registry := by rw [h.registry, h.reporter], stoppedBy := rfl }
  exact .since (.stop hstage) rfl rfl (hstopped.leave rfl)

/-- The loop takes results as far as it can. -/
theorem Mirrors.listen (h : service.Mirrors component loop) (hstage : loop.stage = .listening) :
    Plays component loop inbox service.asked (service.listen inbox) := by
  -- On the results that are left: the loop is back at listening for each next one, or it waits with
  -- the rest still in the inbox.
  induction inbox generalizing service loop with
  | nil =>
    have hshows : Shows component { service with inbox := [], phase := .listening } loop :=
      { h with
        phase := by rw [hstage]; exact .listening
        hired := fun _ hblocked => by cases hblocked }
    exact hshows.plays
  | cons received rest ih =>
    unfold Service.listen
    have htake : Loop.Step component loop (.took received) _ :=
      .take hstage received service.yard.shared.ledger
    rw [h.errors] at htake
    rcases hnext : received.handle service.errors service.yard.shared.ledger with
      ⟨next, errors, ledger⟩
    rw [hnext] at htake
    have htaken : Mirrors component
        { service with
          errors := errors
          inbox := rest
          yard := service.yard.measure fun _ => ledger }
        { loop with errors := errors, stage := .taken next } := { h with errors := rfl }
    apply Plays.since htake rfl rfl
    cases next with
    | dispatch m =>
      exact .since (.call rfl) rfl rfl
        ((htaken.prepare m).goOnAfter rfl (fun _ _ h hstage _ => ih h hstage) rfl)
    | pause millis =>
      cases millis with
      | zero => exact .since (.pause rfl) rfl rfl (ih { htaken with } rfl)
      | succ millis => exact (htaken.pause rfl (service.clock + (millis + 1))).plays
    | stop e => exact htaken.stop rfl

/-- The loop reports that it is healthy, or does nothing. -/
theorem Mirrors.reportIfDue (h : service.Mirrors component loop) :
    service.reportIfDue.Mirrors component loop ∨ ∃ deadline,
      service.reportIfDue.Mirrors component
        { loop with registry := loop.registry.report component (.healthyUntil deadline) } := by
  unfold Service.reportIfDue
  split
  · exact .inl h
  · have hregistry := congrArg (HealthRegistry.report component
      (.healthyUntil (service.yard.shared.instant + service.loop.span))) h.registry
    rw [← h.reporter] at hregistry ⊢
    have hothers := h.reporter ▸ h.others
    exact .inr ⟨_, { h with registry := hregistry, reporter := rfl, others := hothers }⟩

/-- The loop leaves if it notices that the service is to stop, else it reports and listens. -/
theorem Mirrors.goOn (h : service.Mirrors component loop) (hstage : loop.stage = .listening) :
    Plays component loop service.inbox service.asked service.goOn := by
  unfold Service.goOn
  split
  · rename_i hstopping
    have hleft : service.Mirrors component { loop with stage := .leaving } := { h with }
    exact .since (.notice hstage (h.stopping.trans hstopping)) rfl rfl (hleft.leave rfl)
  · have hsame : service.reportIfDue.inbox = service.inbox ∧
        service.reportIfDue.asked = service.asked := by
      unfold Service.reportIfDue
      split <;> exact ⟨rfl, rfl⟩
    rw [← hsame.1, ← hsame.2]
    obtain hmirrors | ⟨deadline, hmirrors⟩ := h.reportIfDue
    · exact hmirrors.listen hstage
    · exact .since (.report hstage deadline) rfl rfl (hmirrors.listen hstage)

/-- The loop goes on from where it had to wait. -/
theorem Shows.runConsumer (h : service.Shows component loop) :
    Plays component loop service.inbox service.asked service.runConsumer := by
  obtain ⟨crew, stopping, errors, registry, stage, stoppedBy⟩ := loop
  have hphase : service.phase.Shows stage := h.phase
  have hmirrors := h.toMirrors
  unfold Service.runConsumer
  split <;> rename_i hat <;> rw [hat] at hphase <;> cases hphase
  · exact hmirrors.goOn rfl
  · split
    · have hlistening : service.Mirrors component
        ⟨crew, stopping, errors, registry, .listening, stoppedBy⟩ := { hmirrors with }
      exact .since (.pause rfl) rfl rfl (hlistening.goOn rfl)
    · exact h.plays
  · rename_i m
    have hprepared : (service.prepared m).Mirrors component
        ⟨crew, stopping, errors, registry, .dispatching m, stoppedBy⟩ := by
      rw [prepared_eq (h.hired m hat)]
      exact hmirrors
    apply hprepared.goOnAfter rfl _ rfl
    intro service' loop' hmirrors hstage hinbox
    rw [← hinbox]
    exact hmirrors.goOn hstage
  · exact hmirrors.close rfl hat _
  · exact h.plays

/-! ## Where the loop waits -/

/-- A loop that does not finish the closing has to wait. -/
theorem close_waits {last : Nat} (h : service.phase = .closing last) :
    (service.close last).Waits := by
  unfold Service.close
  split
  · exact trivial
  · rename_i hopen
    simpa [Waits, h] using hopen

/-- A loop that leaves has to wait unless it finishes at once. -/
theorem leave_waits (service : Service) : service.leave.Waits := close_waits rfl

/-- A dispatch that has not ended waits for a place; one that has ended leaves it open whether the
service is to stop. -/
theorem dispatch_waits {done : Bool} (hdispatch : service.dispatch m = (done, service')) :
    if done then service'.yard.stopping = service.yard.stopping else service'.Waits := by
  have hprepared := (service.yard.prepare_crew m).2.1
  unfold Service.dispatch at hdispatch
  split at hdispatch <;> rename_i hhandOver <;> cases hdispatch <;>
    obtain ⟨hcrew, hstopping, -⟩ := Yard.handOver_crew hhandOver
  · have hsame := Crew.handOver_of_waiting hcrew
    rw [← hsame] at hcrew
    exact congrArg Prod.fst hcrew
  · exact hstopping.trans hprepared

/-- A loop that takes results goes on until it has to wait. -/
theorem listen_waits (inbox : List Received) (hgo : service.yard.stopping = false) :
    (service.listen inbox).Waits := by
  induction inbox generalizing service with
  | nil => exact ⟨rfl, hgo⟩
  | cons received rest ih =>
    unfold Service.listen
    dsimp only
    split
    · split <;> rename_i hdispatch
      · exact ih ((dispatch_waits hdispatch).trans hgo)
      · exact dispatch_waits hdispatch
    · exact ih hgo
    · rename_i millis hmillis hnext
      exact Nat.lt_add_of_pos_right (Nat.pos_of_ne_zero fun hzero => hmillis (hzero ▸ rfl))
    · exact leave_waits _

/-- A loop that goes on does so until it has to wait. -/
theorem goOn_waits (service : Service) : service.goOn.Waits := by
  unfold Service.goOn
  split
  · exact leave_waits _
  · rename_i hstopping
    have hgo : service.yard.stopping = false := by simpa using hstopping
    apply listen_waits
    unfold Service.reportIfDue
    split <;> exact hgo

/-- Whatever the loop waits for, it goes on as soon as it can, until it has to wait again. -/
theorem runConsumer_waits (service : Service) : service.runConsumer.Waits := by
  unfold Service.runConsumer
  split <;> rename_i hphase
  · exact goOn_waits _
  · split
    · exact goOn_waits _
    · rename_i hlast
      simpa [Waits, hphase] using hlast
  · split <;> rename_i hdispatch
    · exact goOn_waits _
    · exact dispatch_waits hdispatch
  · exact close_waits hphase
  · simp [Waits, hphase]

/-! ## The other parties -/

/-- What a worker does is a step beside the loop, or no step if there is no such worker. -/
theorem Shows.work (h : service.Shows component loop) (place : Workplace Broker) (p : Partition) :
    ∃ acts loop', Loop.Run component loop acts loop' ∧
      Shows component { service with yard := service.yard.runWorkerAt place p } loop' ∧
        ∀ act ∈ acts, act = .aside := by
  cases hworker : service.yard.crew.worker? p with
  | none =>
    have hsame : service.yard.runWorkerAt place p = service.yard := by
      simp [Yard.runWorkerAt, hworker]
    rw [hsame]
    exact ⟨[], loop, .nil, h, nofun⟩
  | some w =>
    obtain ⟨w', hcrew, hstopping⟩ : ∃ w',
        (service.yard.runWorkerAt place p).crew = service.yard.crew.set p w' ∧
          (service.yard.runWorkerAt place p).stopping = service.yard.stopping :=
      ⟨(w.run place service.yard.stopping service.yard.crew.dismissed service.yard.shared
        service.yard.broker).1, by simp [Yard.runWorkerAt, hworker]⟩
    refine ⟨_, _, .single (.work p w'), { h with crew := ?_, stopping := ?_, hired := ?_ }, by simp⟩
    · rw [hcrew, h.crew]
    · exact h.stopping.trans hstopping.symm
    · intro m hblocked
      have hhired := h.hired m hblocked
      change ((service.yard.runWorkerAt place p).crew.worker? m.partition).isSome = true
      rw [hcrew, Crew.worker?_set]
      split
      · rw [hworker]
        rfl
      · exact hhired

/-- A result that the consumer is given is the last in the inbox. -/
theorem Shows.give (h : service.Shows component loop) (received : Received) :
    (service.give received).Shows component loop ∧
      (service.give received).inbox = service.inbox ++ [received] ∧
        (service.give received).asked = service.asked := by
  unfold Service.give
  dsimp only
  split <;> exact ⟨{ h with }, rfl, rfl⟩

/-- Whatever else a service does, its loop takes steps. If it leaves the inbox and makes no last
request to the broker, neither do these. -/
theorem Shows.goes (h : service.Shows component loop) (hgoes : service.Goes service')
    (hinbox : service'.inbox = service.inbox) (hasked : service'.asked = service.asked) :
    ∃ acts loop', Loop.Run component loop acts loop' ∧ service'.Shows component loop' ∧
      results acts = [] ∧ acts.filter Act.asksBroker = [] := by
  cases hgoes with
  | consumer =>
    obtain ⟨acts, loop', hrun, hshows, -, htaken, hmade⟩ := h.runConsumer
    rw [hinbox, List.self_eq_append_left] at htaken
    rw [hasked, List.self_eq_append_right] at hmade
    exact ⟨acts, loop', hrun, hshows, htaken, hmade⟩
  | @worker place _ p =>
    obtain ⟨acts, loop', hrun, hshows, haside⟩ := h.work place p
    refine ⟨acts, loop', hrun, hshows, ?_, ?_⟩
    · exact List.filterMap_eq_nil_iff.mpr fun act hmem => by rw [haside act hmem]; rfl
    · exact List.filter_eq_nil_iff.mpr fun act hmem => by rw [haside act hmem]; nofun
  | sweeper =>
    refine ⟨[], loop, .nil, ?_, rfl, rfl⟩
    unfold Service.runSweeper
    dsimp only
    split <;> exact { h with }
  | give received => exact ⟨[], loop, .nil, (h.give received).1, rfl, rfl⟩
  | signal => exact ⟨_, _, .single .signal, { h with stopping := rfl }, rfl, rfl⟩
  | @alive handle hclient =>
    have hother : handle.component ≠ component := by
      obtain rfl | rfl := hclient
      · exact h.others.1
      · exact h.others.2
    exact ⟨_, _, .single (.other hother _), { h with registry := by rw [h.registry]; rfl }, rfl,
      rfl⟩
  | change => exact ⟨[], loop, .nil, { h with }, rfl, rfl⟩
  | elapse => exact ⟨[], loop, .nil, { h with }, rfl, rfl⟩
  | schedule => exact ⟨[], loop, .nil, { h with }, rfl, rfl⟩

end Loop

end Service

end Rehearsal

end MarketFeed
