import MarketFeed.Proofs.Config.Rules
import MarketFeed.Proofs.Service.Step
import MarketFeed.Rehearsal.Program

/-!
# Outputs keep to their topics

All that a service ever hands to its producer are records of ticks, on the topic for ticks, and
records of dead letters, on the topic for dead letters. A configuration that is accepted has
different topics, so nothing is sent to the topic that the service reads. Publishing hands over
one record, and succeeds only if that was acknowledged.
-/

namespace MarketFeed

/-! ## One publication -/

/-- The producer with a journal of the records that it was handed and what it reported. -/
def Producer.journaled {σ : Type} (producer : Producer σ) :
    Producer (σ × List (Record × SendReport)) where
  send record x :=
    let (report, y) := producer.send record x.1
    (report, y, x.2 ++ [(record, report)])

/-- Only an acknowledged record has not failed. -/
theorem SendReport.failure?_eq_none {report : SendReport} :
    report.failure? = none ↔ report = .acknowledged := by
  cases report <;> simp [failure?]

/-- Publishing to these topics hands one record to the producer, that of the output, and succeeds
exactly if this record is acknowledged. -/
structure OutputTopics.PublishesOnce (topics : OutputTopics) : Prop where
  once : ∀ {σ : Type} (producer : Producer σ) (output : Output) (x : σ)
    (sent : List (Record × SendReport)),
    (topics.publish producer.journaled output (x, sent)).2.2 =
      sent ++ [(topics.record output, (producer.send (topics.record output) x).1)]
  ok_iff : ∀ {σ : Type} (producer : Producer σ) (output : Output) (x : σ),
    (topics.publish producer output x).1 = .ok () ↔
      (producer.send (topics.record output) x).1 = .acknowledged

namespace OutputTopics

variable {σ : Type} (topics : OutputTopics) (producer : Producer σ) (output : Output) (x : σ)

/-- After publishing, the producer is where it is after the record of the output. -/
theorem publish_snd :
    (topics.publish producer output x).2 = (producer.send (topics.record output) x).2 := by
  unfold publish
  dsimp only
  split <;> rfl

/-- Publishing succeeds exactly if the record was acknowledged. -/
theorem publish_eq_ok_iff : (topics.publish producer output x).1 = .ok () ↔
    (producer.send (topics.record output) x).1 = .acknowledged := by
  rw [← SendReport.failure?_eq_none]
  unfold publish
  dsimp only
  split <;> simp_all

/-- All topics are published to in this way. -/
theorem publishesOnce : topics.PublishesOnce where
  once := fun producer output x sent => by rw [publish_snd]; rfl
  ok_iff := topics.publish_eq_ok_iff

end OutputTopics

/-- The records that a service sends: ticks under the name of their instrument, and dead letters
under the id of their event, each on the topic for it. -/
inductive Config.Sends (c : Config) : Record → Prop
  | tick (tick : CanonicalTick) (payload : String) (h : utf8 payload = tick.encode) :
      Sends c ⟨c.outputTopic, tick.payload.instrumentId, payload⟩
  | deadLetter (letter : DeadLetter) (payload : String) (h : utf8 payload = letter.encode) :
      Sends c ⟨c.deadLetterTopic, letter.eventId, payload⟩

/-- The record of an output is one that the service sends. -/
theorem Config.sends_record (c : Config) (output : Output) :
    c.Sends (c.outputTopics.record output) := by
  cases output with
  | tick tick => exact .tick tick _ rfl
  | deadLetter letter => exact .deadLetter letter _ rfl

/-- If the topics differ, nothing is sent to the topic that is read. -/
theorem Config.Sends.topic_ne {c : Config} (hsound : c.Sound) {record : Record}
    (h : c.Sends record) : record.topic ≠ c.inputTopic := by
  cases h with
  | tick => exact hsound.inputOutput.symm
  | deadLetter => exact hsound.inputDeadLetter.symm

namespace Rehearsal

open Relation (ReflTransGen)

/-! ## The records that a broker was handed -/

/-- The broker was handed records of outputs only, for these topics. -/
structure Broker.Sorted (topics : OutputTopics) (broker : Broker) : Prop where
  sameTopics : broker.topics = topics
  outputs : ∀ record report, .produced record report ∈ broker.log →
    ∃ output, record = topics.record output

namespace Broker

variable {topics : OutputTopics} {broker broker' : Broker}

/-- The topics stay, and one record is handed over: that of the output. -/
theorem publish_log (broker : Broker) (output : Output) :
    (broker.publish output).2.topics = broker.topics ∧
      (broker.publish output).2.log = broker.log ++ [.produced (broker.topics.record output)
        (broker.send (broker.topics.record output)).1] := by
  have hsent := broker.topics.publish_snd producer output broker
  have hpublish : (broker.publish output).2.topics =
        (broker.topics.publish producer output broker).2.topics ∧
      (broker.publish output).2.log = (broker.topics.publish producer output broker).2.log := by
    unfold publish
    split <;> rename_i h <;> simp [h]
  rw [hpublish.1, hpublish.2, hsent]
  exact ⟨rfl, rfl⟩

/-- A broker that was not asked anything was handed no records. -/
theorem sorted_new (topics : OutputTopics) : (new topics).Sorted topics where
  sameTopics := rfl
  outputs := fun _ _ h => by simp [new] at h

/-- Other requests than to take a record do not matter. -/
theorem Sorted.note (h : broker.Sorted topics) {event : BrokerEvent}
    (hother : ∀ record report, event ≠ .produced record report) :
    (broker.note event).Sorted topics where
  sameTopics := h.sameTopics
  outputs := fun record report hmem => by
    obtain hmem | hmem := List.mem_append.mp hmem
    · exact h.outputs record report hmem
    · exact absurd (List.mem_singleton.mp hmem).symm (hother record report)

/-- Publishing hands over the record of an output. -/
theorem Sorted.publish (h : broker.Sorted topics) (output : Output) :
    (broker.publish output).2.Sorted topics where
  sameTopics := (broker.publish_log output).1.trans h.sameTopics
  outputs := fun record report hmem => by
    rw [(broker.publish_log output).2, h.sameTopics] at hmem
    obtain hmem | hmem := List.mem_append.mp hmem
    · exact h.outputs record report hmem
    · cases List.mem_singleton.mp hmem
      exact ⟨output, rfl⟩

/-- Whatever is asked of the broker, it is handed records of outputs only. -/
theorem Sorted.asked (h : broker.Sorted topics) (hasked : broker.Asked broker') :
    broker'.Sorted topics := by
  cases hasked with
  | publish output => exact h.publish output
  | store next => exact h.note (by simp)
  | note event hother => exact h.note hother
  | change fates refused closing => exact ⟨h.sameTopics, h.outputs⟩

/-- So it is over many requests. -/
theorem Sorted.reached (h : broker.Sorted topics)
    (hasked : Relation.ReflTransGen Asked broker broker') : broker'.Sorted topics := by
  induction hasked with
  | refl => exact h
  | tail _ hlast ih => exact ih.asked hlast

end Broker

/-! ## Starting -/

/-- The broker is asked for a client, or whether it can be reached. -/
def BrokerEvent.connects : BrokerEvent → Bool
  | producerCreated _ | metadataFetched _ | consumerCreated _ | subscribed _ => true
  | _ => false

/-- What was known of a broker is known of it after a computation, too. -/
def KeepsBroker {ε α : Type} (P : Broker → Prop) (act : ExceptT ε (StateM Broker) α) : Prop :=
  ∀ broker : Broker, P broker → P (act.run broker).2

namespace KeepsBroker

variable {P : Broker → Prop} {ε ε' α β : Type}

/-- What keeps it step by step keeps it. -/
theorem bind {act : ExceptT ε (StateM Broker) α} {next : α → ExceptT ε (StateM Broker) β}
    (h : KeepsBroker P act) (hnext : ∀ a, KeepsBroker P (next a)) :
    KeepsBroker P (act >>= next) := by
  intro broker hknown
  have hfirst := h broker hknown
  rw [ExceptT.run_bind]
  change P (let (result, broker) := act.run broker
    (match result with
      | .ok a => (next a).run
      | .error e => pure (.error e) : StateM Broker (Except ε β)) broker).2
  rcases hact : act.run broker with ⟨_ | a, asked⟩ <;> rw [hact] at hfirst
  · exact hfirst
  · exact hnext a asked hfirst

/-- Telling failures otherwise changes nothing. -/
theorem adapt {act : ExceptT ε (StateM Broker) α} (h : KeepsBroker P act) (f : ε → ε') :
    KeepsBroker P (ExceptT.adapt f act) := by
  intro broker hknown
  exact h broker hknown

/-- A result that is there already changes nothing. -/
theorem liftExcept (result : Except StartupError α) :
    KeepsBroker P (Config.start.liftExcept (σ := Broker) result) :=
  fun _ hknown => hknown

/-- What the requests of a start keep is kept by it, whatever fails. -/
theorem start (hnote : ∀ event broker, event.connects = true → P broker → P (broker.note event))
    (c : Config) (faults : StartupFaults) : KeepsBroker P (c.start faults.factory) := by
  have hasked (event : BrokerEvent) (fault : Option BrokerError)
      (hconnects : event.connects = true) : KeepsBroker P (askBroker event fault) := by
    intro broker hknown
    have hnoted := hnote event broker hconnects hknown
    cases fault with
    | none => exact hnoted
    | some e => exact hnoted
  have hproducer (kibibytes : UInt32) : KeepsBroker P (do
      faults.factory.createProducer (c.broker.producerSettings kibibytes)
      faults.factory.fetchMetadata metadataTimeout) :=
    bind (hasked _ _ rfl) fun _ => hasked _ _ rfl
  have hconsumer : KeepsBroker P (do
      faults.factory.createConsumer c.consumerSettings
      faults.factory.subscribe [c.inputTopic]) :=
    bind (hasked _ _ rfl) fun _ => hasked _ _ rfl
  unfold Config.start
  refine bind (liftExcept _) fun kibibytes => ?_
  refine bind ((hproducer kibibytes).adapt _) fun _ => ?_
  refine bind (hconsumer.adapt _) fun _ => ?_
  exact liftExcept _

end KeepsBroker

namespace Service

/-- A service that has started has handed over no records but those of outputs, which go to the
topics that its configuration names. -/
theorem sorted_of_start {c : Config} {wall : Int64} {faults : StartupFaults} {first : Service}
    {broker : Broker} (h : start c wall faults = (.ok first, broker)) :
    first.yard.broker.Sorted c.outputTopics := by
  have hkept : ((c.start faults.factory).run (Broker.new c.outputTopics)).2.Sorted c.outputTopics :=
    KeepsBroker.start
      (fun _ _ hconnects hsorted =>
        hsorted.note fun _ _ hproduced => by cases hproduced ▸ hconnects)
      c faults _ (Broker.sorted_new c.outputTopics)
  unfold start at h
  rcases hstart : (c.start faults.factory).run (Broker.new c.outputTopics) with
    ⟨_ | store, asked⟩ <;> rw [hstart] at h hkept <;> cases h
  exact hkept

/-- A configuration is accepted exactly if it is sound. Publishing hands one record to the
producer, and succeeds only if that was acknowledged. Where the configuration is accepted, and
whatever the service has done since it started, it has handed over nothing but ticks under the name
of their instrument and dead letters under the id of their event, each on the topic for it, and
nothing on the topic that it reads. -/
theorem outputs_kept_apart (c : Config) :
    (c.breach? = none ↔ c.Sound) ∧ c.outputTopics.PublishesOnce ∧
      (c.breach? = none → ∀ wall faults first broker service,
        start c wall faults = (.ok first, broker) → ReflTransGen Goes first service →
        ∀ record report, .produced record report ∈ service.yard.broker.log →
          c.Sends record ∧ record.topic ≠ c.inputTopic) := by
  refine ⟨c.breach?_eq_none_iff, c.outputTopics.publishesOnce, ?_⟩
  intro haccepted wall faults first broker service hstart hruns record report hmem
  have hsorted : service.yard.broker.Sorted c.outputTopics :=
    (sorted_of_start hstart).reached (asks_of_goes hruns)
  obtain ⟨output, rfl⟩ := hsorted.outputs record report hmem
  have hsends := c.sends_record output
  exact ⟨hsends, hsends.topic_ne (c.breach?_eq_none_iff.mp haccepted)⟩

/-- The queue of a producer has 400 mebibytes if nothing else is set. -/
theorem queueKibibytes?_standard :
    ({ backfillEnabled := false } : Config).broker.queueKibibytes? = some 409600 := by
  decide +kernel

/-- A message that is no event becomes a dead letter on the topic for dead letters. -/
theorem outputs_kept_apart_of_stray :
    ∃ (first service : Service) (record : Record),
      (start { backfillEnabled := false } 0 noFaults).1 = .ok first ∧
        ReflTransGen Goes first service ∧
        .produced record .acknowledged ∈ service.yard.broker.log ∧
        Config.Sends { backfillEnabled := false } record ∧ record.topic ≠ "market_ticks_raw" := by
  let m : InputMessage := ⟨⟨"market_ticks_raw", 0, 7⟩, utf8 "?"⟩
  let played (first : Service) := (first.give (.message m)).runConsumer.runWorker m.partition
  have hplayed (first : Service) : ReflTransGen Goes first (played first) :=
    ((ReflTransGen.single (.give (.message m))).tail .consumer).trans (run_goes (.worker _) _)
  obtain ⟨first, broker, hstart, record, hproduced⟩ : ∃ first broker,
      start { backfillEnabled := false } 0 noFaults = (.ok first, broker) ∧
        ∃ record, .produced record .acknowledged ∈ (played first).yard.broker.log := by
    have hqueue := queueKibibytes?_standard
    simp only [start, Config.start, hqueue]
    exact ⟨_, _, rfl, _, List.mem_of_getElem? (i := 4) rfl⟩
  obtain ⟨hsends, htopic⟩ := (outputs_kept_apart { backfillEnabled := false }).2.2 (by decide) 0
    noFaults first broker (played first) hstart (hplayed first) record .acknowledged hproduced
  exact ⟨first, played first, record, congrArg Prod.fst hstart, hplayed first, hproduced, hsends,
    htopic⟩

end Service

end Rehearsal

end MarketFeed
