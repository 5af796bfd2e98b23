import MarketFeed.Proofs.Service.Records
import MarketFeed.Proofs.Shift.Serve

/-!
# The workers of a service

The workers of a service publish to its broker and store places there. The broker writes down each
record that it has acknowledged and each place that it was to store. When a worker has run, the
crew was at work, and what the broker has written down is what the deeds of the worker tell.
-/

namespace MarketFeed

open Rehearsal

/-! ## What a broker writes down -/

/-- The output that was accepted, if it is one that was settled. -/
def Settlement.output? : Settlement → Option Output
  | accepted output => some output
  | stored _ _ => none

/-- How a broker for these topics writes down what was settled. -/
def Settlement.event (topics : OutputTopics) : Settlement → BrokerEvent
  | accepted output => .produced (topics.record output) .acknowledged
  | stored place done => .offsetStored place done

namespace Rehearsal

/-- A record was acknowledged, or a place was to be stored. -/
def BrokerEvent.settles : BrokerEvent → Bool
  | produced _ .acknowledged => true
  | offsetStored _ _ => true
  | _ => false

/-- Between two states a broker has published the outputs that were accepted, and has written down
what was settled and nothing else of this kind. -/
structure Broker.Settles (broker : Broker) (settled : List Settlement) (broker' : Broker) :
    Prop where
  topics : broker'.topics = broker.topics
  published : broker'.published = broker.published ++ settled.filterMap Settlement.output?
  log : broker'.log.filter BrokerEvent.settles =
    broker.log.filter BrokerEvent.settles ++ settled.map (Settlement.event broker.topics)

namespace Broker

variable {broker broker' broker'' : Broker} {settled more : List Settlement}

/-- Nothing was settled. -/
theorem Settles.refl (broker : Broker) : broker.Settles [] broker := ⟨rfl, by simp, by simp⟩

/-- What was settled in one stretch after the other. -/
theorem Settles.append (h : broker.Settles settled broker') (h' : broker'.Settles more broker'') :
    broker.Settles (settled ++ more) broker'' where
  topics := h'.topics.trans h.topics
  published := by rw [h'.published, h.published, List.filterMap_append, List.append_assoc]
  log := by rw [h'.log, h.log, h.topics, List.map_append, List.append_assoc]

/-- Publishing succeeds exactly if the record of the output is acknowledged. -/
theorem publish_eq_ok_iff (broker : Broker) (output : Output) :
    (broker.publish output).1 = .ok () ↔
      (broker.send (broker.topics.record output)).1 = .acknowledged := by
  rw [show (broker.send (broker.topics.record output)).1 = .acknowledged ↔ _ from
    (broker.topics.publish_eq_ok_iff producer output broker).symm]
  unfold publish
  split <;> rename_i h <;> simp [h]

/-- An output counts as published if publishing succeeds. -/
theorem published_publish (broker : Broker) (output : Output) :
    (broker.publish output).2.published =
      broker.published ++ if (broker.publish output).1 = .ok () then [output] else [] := by
  have hsent := congrArg Broker.published (broker.topics.publish_snd producer output broker)
  have hkept : (producer.send (broker.topics.record output) broker).2.published =
      broker.published := rfl
  rw [hkept] at hsent
  unfold publish
  split <;> rename_i h <;> rw [h] at hsent <;> simp [← hsent]

/-- What publishing settles: the output, if it is accepted. -/
theorem settles_publish (broker : Broker) (output : Output) :
    broker.Settles (if (broker.publish output).1 = .ok () then [.accepted output] else [])
      (broker.publish output).2 where
  topics := (broker.publish_log output).1
  published := by
    rw [published_publish]
    split <;> rfl
  log := by
    rw [(broker.publish_log output).2, List.filter_append]
    split
    · rename_i hdone
      rw [(publish_eq_ok_iff broker output).mp hdone]
      rfl
    · rename_i hfailed
      rw [publish_eq_ok_iff] at hfailed
      cases hreport : (broker.send (broker.topics.record output)).1 with
      | acknowledged => exact absurd hreport hfailed
      | _ => rfl

/-- What storing settles: the place, whether it was stored or not. -/
theorem settles_store (broker : Broker) (place : Coordinates) :
    broker.Settles [.stored place (broker.store place).1] (broker.store place).2 where
  topics := rfl
  published := (List.append_nil _).symm
  log := List.filter_append ..

end Broker

/-- The setting of the workers of a rehearsal: a store that does not reply. -/
def silentStore (backfills : Bool) : Setting :=
  ⟨backfills, fun _ reply => reply = .error (.transport "no reply")⟩

/-- It is the one of their workplace. -/
theorem fits_workplace (backfills : Bool) :
    (workplace backfills).toSurroundings.Fits (silentStore backfills) where
  backfills := rfl
  replies := fun _ _ _ => rfl
  passes := fun _ _ _ => .refl

/-- The broker writes down what the workers of a rehearsal settle. -/
theorem notes_workplace (backfills : Bool) : (workplace backfills).Notes Broker.Settles where
  outputs :=
    { nothing := Broker.Settles.refl
      append := fun h h' => by
        rw [List.map_append]
        exact h.append h'
      lookup := fun _ _ broker => .refl broker
      accept := fun {output broker _} h => by
        have hsettles := broker.settles_publish output
        rw [show broker.publish output = _ from h, if_pos rfl] at hsettles
        exact hsettles
      refuse := fun {output broker _ _} h => by
        have hsettles := broker.settles_publish output
        rw [show broker.publish output = _ from h, if_neg nofun] at hsettles
        exact hsettles }
  append := Broker.Settles.append
  store := fun {next broker _ _} h => by
    have hsettles := broker.settles_store next
    rw [show broker.store next = _ from h] at hsettles
    exact hsettles

end Rehearsal

namespace Shift

variable {shift shift' : Shift} {p : Partition} {w : Worker}

/-- A crew at work is the one in a yard. Its workers wait unless they have ended. -/
structure Mirrors (shift : Shift) (yard : Yard) : Prop where
  shared : shift.traffic.shared = yard.shared
  stopping : shift.stopping = yard.stopping
  capacity : shift.crew.capacity = yard.crew.capacity
  dismissed : shift.crew.dismissed = yard.crew.dismissed
  workers : ∀ q, shift.crew.worker? q = yard.crew.worker? q
  rests : ∀ q w, shift.crew.worker? q = some w → w = .gone ∨ shift.Rests q w

/-- A worker waits as long as it stays at its message. -/
theorem Rests.of_same {w' : Worker} (h : shift.Rests p w)
    (hworker : shift'.crew.worker? p = some w') (hpresent : w'.ended = w.ended)
    (hbegun : w'.begun = w.begun)
    (htraffic : shift'.traffic.passages (shift'.ticket p) =
      shift.traffic.passages (shift.ticket p)) : shift'.Rests p w' where
  hired := hworker
  present := hpresent.trans h.present
  failed := fun m hm => by
    rw [htraffic]
    exact h.failed m (hbegun ▸ hm)

/-- A worker waits while that of another partition is at work. -/
theorem Rests.of_alone {q : Partition} (h : shift.Rests q w) (halone : Alone p shift shift')
    (hother : q ≠ p) : shift'.Rests q w := by
  refine h.of_same ((halone.others q hother).trans h.hired) rfl rfl ?_
  rw [halone.passages _ hother, ticket, halone.finished q hother]
  rfl

/-- The workers go on waiting, and so do new ones that are idle. -/
theorem Mirrors.rests_of_kept {yard : Yard} (h : shift.Mirrors yard)
    (htraffic : ∀ q, shift'.traffic.passages (shift'.ticket q) =
      shift.traffic.passages (shift.ticket q))
    (hkept : ∀ q w, shift'.crew.worker? q = some w → shift.crew.worker? q = some w ∨ w = .idle) :
    ∀ q w, shift'.crew.worker? q = some w → w = .gone ∨ shift'.Rests q w := by
  intro q w hw
  rcases hkept q w hw with hbefore | rfl
  · exact (h.rests q w hbefore).imp_right fun hwaits => hwaits.of_same hw rfl rfl (htraffic q)
  · exact .inr ⟨hw, rfl, nofun⟩

/-- A crew is the one in every yard with the same workers. -/
theorem Mirrors.of_crew {yard yard' : Yard} (h : shift.Mirrors yard)
    (hshared : yard'.shared = yard.shared) (hstopping : yard'.stopping = yard.stopping)
    (hcrew : yard'.crew = yard.crew) : shift.Mirrors yard' where
  shared := h.shared.trans hshared.symm
  stopping := h.stopping.trans hstopping.symm
  capacity := by rw [hcrew, h.capacity]
  dismissed := by rw [hcrew, h.dismissed]
  workers := fun q => by rw [hcrew, h.workers]
  rests := h.rests

/-- When only the worker of one partition was at work, the crew is the one in the yard where that
worker is replaced. -/
theorem Mirrors.replace {yard yard' : Yard} (h : shift.Mirrors yard) (halone : Alone p shift shift')
    (hhired : shift.crew.worker? p = some w) {w' : Worker}
    (hworker : shift'.crew.worker? p = some w') (hrests : w' = .gone ∨ shift'.Rests p w')
    (hshared : shift'.traffic.shared = yard'.shared) (hstopping : yard'.stopping = yard.stopping)
    (hcrew : yard'.crew = yard.crew.set p w') : shift'.Mirrors yard' where
  shared := hshared
  stopping := halone.stopping.trans (h.stopping.trans hstopping.symm)
  capacity := by rw [halone.capacity, h.capacity, hcrew]; rfl
  dismissed := by rw [halone.dismissed, h.dismissed, hcrew]; rfl
  workers := fun q => by
    rw [hcrew, Crew.worker?_set]
    split
    · subst q
      rw [hworker, ← h.workers, hhired]
      rfl
    · rename_i hother
      rw [halone.others q hother, h.workers]
  rests := fun q v hv => by
    by_cases hq : q = p
    · subst hq
      obtain rfl := Option.some.inj (hworker.symm.trans hv)
      exact hrests
    · rw [halone.others q hq] at hv
      exact (h.rests q v hv).imp_right fun hwaits => hwaits.of_alone halone hq

/-- When a worker of a yard runs, the crew is at work. The broker publishes the outputs and stores
the places that the deeds tell of. -/
theorem Mirrors.runWorker {yard : Yard} (h : shift.Mirrors yard) (backfills : Bool)
    (p : Partition) :
    ∃ deeds shift', Run (silentStore backfills) shift deeds shift' ∧
      shift'.calling = shift.calling ∧ shift'.Mirrors (yard.runWorker backfills p) ∧
        yard.broker.Settles (settlements deeds) (yard.runWorker backfills p).broker := by
  unfold Yard.runWorker Yard.runWorkerAt
  rw [← h.workers]
  split
  · exact ⟨[], shift, .nil, rfl, h, .refl _⟩
  · rename_i w hhired
    rcases hrun : w.run (workplace backfills) yard.stopping yard.crew.dismissed yard.shared
      yard.broker with ⟨w', s', broker⟩
    rcases h.rests p w hhired with rfl | hrests
    · cases hrun
      exact ⟨[], shift, .nil, rfl, h.replace (.refl ..) hhired hhired (.inl rfl) h.shared rfl rfl,
        .refl _⟩
    · rw [← h.stopping, ← h.dismissed, ← h.shared] at hrun
      obtain ⟨deeds, shift', hdeeds, halone, hshared, hsettles, hworker, hrests'⟩ :=
        hrests.run (fits_workplace backfills) (notes_workplace backfills) hrun
      exact ⟨deeds, shift', hdeeds, halone.calling,
        h.replace halone hhired hworker hrests' hshared rfl rfl, hsettles⟩

end Shift

end MarketFeed
