import MarketFeed.Proofs.Service.Workers

/-!
# Rehearsals of the workers

In a rehearsal of the workers a crew is at work. A message that is dispatched is called for, and
then it is handed over, or given up after some time in which the workers ran; and the workers run
when time passes. So whatever is known of all crews at work is known of the rehearsed ones, and the
broker has written down what these have settled.
-/

namespace MarketFeed.Rehearsal

open Relation (ReflTransGen)
open Shift (Run)

namespace Yard

variable {yard yard' yard'' : Yard} {m : InputMessage}
  {calling calling' calling'' : Option InputMessage}

/-- From one yard to the other, a crew is at work. There may be a message to be handed over at
first, and one at last. -/
def Works (calling : Option InputMessage) (yard : Yard) (calling' : Option InputMessage)
    (yard' : Yard) : Prop :=
  ∀ shift : Shift, shift.calling = calling → shift.Mirrors yard →
    ∃ deeds shift', Run (silentStore false) shift deeds shift' ∧ shift'.calling = calling' ∧
      shift'.Mirrors yard' ∧ yard.broker.Settles (settlements deeds) yard'.broker

/-- Nothing has been done. -/
theorem Works.refl (calling : Option InputMessage) (yard : Yard) :
    Works calling yard calling yard :=
  fun shift hcalling hmirrors => ⟨[], shift, .nil, hcalling, hmirrors, .refl _⟩

/-- A crew is at work in one stretch after the other. -/
theorem Works.trans (h : Works calling yard calling' yard')
    (h' : Works calling' yard' calling'' yard'') : Works calling yard calling'' yard'' := by
  intro shift hcalling hmirrors
  obtain ⟨deeds, mid, hrun, hcalling', hmirrors', hsettles⟩ := h shift hcalling hmirrors
  obtain ⟨more, last, hmore, hcalling'', hmirrors'', hsettles'⟩ := h' mid hcalling' hmirrors'
  refine ⟨deeds ++ more, last, hrun.append hmore, hcalling'', hmirrors'', ?_⟩
  rw [settlements_append]
  exact hsettles.append hsettles'

/-- A step with which nothing is settled. -/
theorem Works.step (hstep : ∀ shift : Shift, shift.calling = calling → shift.Mirrors yard →
      ∃ deed shift', Shift.Step (silentStore false) shift deed shift' ∧
        deed.settlement? = none ∧ shift'.calling = calling' ∧ shift'.Mirrors yard')
    (hbroker : yard'.broker = yard.broker) : Works calling yard calling' yard' := by
  intro shift hcalling hmirrors
  obtain ⟨deed, shift', hstep, hnone, hcalling', hmirrors'⟩ := hstep shift hcalling hmirrors
  refine ⟨[deed], shift', Run.nil.snoc hstep, hcalling', hmirrors', ?_⟩
  rw [settlements, List.filterMap_cons_none hnone, List.filterMap_nil, hbroker]
  exact .refl _

/-- Nothing is done when the broker changes its mind. -/
theorem works_of_broker (yard : Yard) {broker : Broker}
    (htopics : broker.topics = yard.broker.topics)
    (hpublished : broker.published = yard.broker.published) (hlog : broker.log = yard.broker.log) :
    Works calling yard calling { yard with broker := broker } := by
  intro shift hcalling hmirrors
  refine ⟨[], shift, .nil, hcalling, hmirrors.of_crew rfl rfl rfl, htopics, ?_, ?_⟩
  · exact hpublished.trans (List.append_nil _).symm
  · rw [hlog]
    exact (List.append_nil _).symm

/-- When a worker runs, a crew is at work. -/
theorem works_runWorker (yard : Yard) (p : Partition) :
    Works calling yard calling (yard.runWorker false p) := by
  rintro shift rfl hmirrors
  exact hmirrors.runWorker false p

/-- While time passes, a crew is at work. -/
theorem works_playUntil (last : Nat) (isOver : Yard → Bool) (yard : Yard) :
    Works calling yard calling (scene.playUntil last isOver yard) := by
  have hreaches : ReflTransGen (fun x y => Works calling x calling y) yard
      (scene.playUntil last isOver yard) := by
    refine Scene.playUntil_reaches (fun party x => .single ?_) (fun agenda x => .single ?_) last
      isOver yard
    · cases party with
      | worker p => exact works_runWorker x p
      | consumer => exact .refl calling x
      | sweeper => exact .refl calling x
    · exact fun shift hcalling hmirrors =>
        ⟨[], shift, .nil, hcalling, hmirrors.of_crew rfl rfl rfl, .refl _⟩
  generalize scene.playUntil last isOver yard = yard' at hreaches
  induction hreaches with
  | refl => exact .refl calling yard
  | tail _ hlast ih => exact ih.trans hlast

/-! ## Dispatching -/

/-- Preparing for a message is to call for it. -/
theorem works_prepare (hopen : yard.crew.dismissed = false) (m : InputMessage) :
    Works none yard (some m) (yard.prepare m) := by
  obtain ⟨hcrew, hstopping, hbroker⟩ := yard.prepare_crew m
  obtain ⟨hcapacity, hdismissed⟩ := yard.crew.hire_limits m.partition
  have hcalled : Works none yard (some m) { yard.prepare m with shared := yard.shared } := by
    refine .step (fun shift hfree hmirrors => ?_) hbroker
    refine ⟨_, _, .call m hfree (hmirrors.dismissed.trans hopen), rfl, rfl, ?_⟩
    obtain ⟨hcapacity', hdismissed'⟩ := shift.crew.hire_limits m.partition
    refine ⟨hmirrors.shared, hmirrors.stopping.trans hstopping.symm, ?_, ?_, fun q => ?_,
      hmirrors.rests_of_kept (fun _ => rfl) fun _ _ => Crew.of_worker?_hire⟩
    · rw [hcapacity', hmirrors.capacity, hcrew, hcapacity]
    · rw [hdismissed', hmirrors.dismissed, hcrew, hdismissed]
    · rw [hcrew, Crew.worker?_hire, Crew.worker?_hire, hmirrors.workers, hmirrors.workers]
  have hmeasured : ∃ change, (yard.prepare m).shared = yard.shared.measure change := by
    unfold prepare
    split
    · exact ⟨id, rfl⟩
    · exact ⟨_, rfl⟩
  obtain ⟨change, hshared⟩ := hmeasured
  refine hcalled.trans (.step (fun shift hcalling hmirrors => ?_) rfl)
  refine ⟨_, _, .ambient (.measure change), rfl, hcalling,
    { hmirrors with shared := ?_, rests := hmirrors.rests_of_kept (fun _ => rfl) fun _ _ => .inl }⟩
  rw [hshared, ← hmirrors.shared]

/-- A message that has no place is given up; else it is handed over. -/
theorem works_handOver (yard : Yard) (m : InputMessage) :
    Works (some m) yard none (yard.handOver m).2 := by
  rcases hyard : yard.handOver m with ⟨handover, yard'⟩
  obtain ⟨hcrew, hstopping, hbroker, hshared⟩ := handOver_crew hyard
  refine .step (fun shift hcalling hmirrors => ?_) hbroker
  rcases hshift : shift.crew.handOver m with ⟨handover', crew⟩
  obtain rfl : handover' = handover := by
    have hsame := Crew.handOver_congr (hmirrors.workers m.partition) hmirrors.capacity
    rwa [hshift, hcrew] at hsame
  have hidle : Shift.Mirrors { shift with calling := none } yard :=
    { hmirrors with rests := hmirrors.rests_of_kept (fun _ => rfl) fun _ _ => .inl }
  obtain ⟨rfl, w, hw, hpresent, rfl⟩ | ⟨rfl, rfl, -⟩ | ⟨rfl, rfl⟩ := Crew.handOver_cases hshift
  · refine ⟨_, _, .handOver hcalling hshift nofun, rfl, rfl, ?_⟩
    obtain ⟨-, w', hw', -, hset⟩ | ⟨hother, -⟩ | ⟨hother, -⟩ := Crew.handOver_cases hcrew
    · obtain rfl : w' = w :=
        Option.some.inj (hw'.symm.trans ((hmirrors.workers m.partition).symm.trans hw))
      have hqueued : (shift.crew.set m.partition
          { w' with queue := w'.queue ++ [m] }).worker? m.partition =
            some { w' with queue := w'.queue ++ [m] } := by
        simp [Crew.worker?_set, hw]
      refine hidle.replace (.set _ m.partition _ shift.looked) hw hqueued (.inr ?_)
        (hmirrors.shared.trans hshared.symm) hstopping hset
      rcases hmirrors.rests m.partition w' hw with rfl | hrests
      · cases hpresent
      · exact hrests.of_same hqueued rfl rfl rfl
    · cases hother
    · cases hother
  · refine ⟨_, _, .handOver hcalling hshift nofun, rfl, rfl, hidle.of_crew hshared hstopping ?_⟩
    obtain ⟨hother, -⟩ | ⟨-, hsame, -⟩ | ⟨hother, -⟩ := Crew.handOver_cases hcrew
    · cases hother
    · exact hsame
    · cases hother
  · exact ⟨_, _, .abandon hcalling, rfl, rfl,
      hidle.of_crew hshared hstopping (Crew.handOver_of_waiting hcrew)⟩

/-- When a message is dispatched, a crew is at work. -/
theorem works_dispatch (hopen : yard.crew.dismissed = false) (m : InputMessage) (patience : Nat) :
    Works none yard none (yard.dispatch m patience).2 := by
  have hsame : (yard.dispatch m patience).2 =
      ((if (yard.prepare m).hasRoom m then yard.prepare m
        else scene.playUntil ((yard.prepare m).agenda.clock + patience) (hasRoom m)
          (yard.prepare m)).handOver m).2 := by
    unfold dispatch
    dsimp only
    split <;> rename_i hhandOver <;> rw [hhandOver]
  rw [hsame]
  refine (works_prepare hopen m).trans (Works.trans ?_ (works_handOver _ m))
  split
  · exact .refl _ _
  · exact works_playUntil _ _ _

end Yard

/-! ## A whole rehearsal -/

/-- What is done in one step, a crew at work does, unless the guard is called directly, and unless a
message is dispatched though the crew was dismissed. -/
theorem DispatchStep.works (step : DispatchStep) {yard : Yard}
    (hguard : ∀ call, step ≠ .guard call)
    (hopen : ∀ m patience, step = .dispatch m patience → yard.crew.dismissed = false) :
    Yard.Works none yard none (step.perform yard).2 := by
  cases step with
  | dispatch m patience => exact Yard.works_dispatch (hopen m patience rfl) m patience
  | idle millis =>
    change Yard.Works none yard none (Yard.scene.pass millis yard)
    exact Yard.works_playUntil _ _ yard
  | signal =>
    refine .step (fun shift hfree hmirrors => ⟨_, _, .signal, rfl, hfree, ?_⟩) rfl
    exact { hmirrors with
      stopping := rfl
      rests := hmirrors.rests_of_kept (fun _ => rfl) fun _ _ => .inl }
  | shutDown timeout =>
    have hdismissed : Yard.Works none yard none yard.dismiss := by
      refine .step (fun shift hfree hmirrors => ⟨_, _, .dismiss hfree, rfl, hfree, ?_⟩) rfl
      exact { hmirrors with
        dismissed := rfl
        rests := hmirrors.rests_of_kept (fun _ => rfl) fun _ _ => .inl }
    refine hdismissed.trans ?_
    change Yard.Works none yard.dismiss none (Yard.scene.playUntil
      (yard.dismiss.agenda.clock + timeout) (fun yard => yard.crew.hasEnded) yard.dismiss)
    exact Yard.works_playUntil _ _ _
  | refuse offsets => exact Yard.works_of_broker yard rfl rfl rfl
  | failNext count => exact Yard.works_of_broker yard rfl rfl rfl
  | advance millis =>
    refine .step (fun shift hfree hmirrors => ?_) rfl
    refine ⟨_, _, .ambient (.elapse (shift.traffic.shared.instant + millis)
      shift.traffic.shared.wall (Nat.le_add_right ..)), rfl, hfree, ?_⟩
    exact { hmirrors with
      shared := by rw [hmirrors.shared]; rfl
      rests := hmirrors.rests_of_kept (fun _ => rfl) fun _ _ => .inl }
  | guard call => exact absurd rfl (hguard call)

/-- What is done in many steps, a crew at work does. -/
theorem works_dispatchAll (steps : List DispatchStep) {yard : Yard}
    (hguard : ∀ call, .guard call ∉ steps)
    (hopen : ∀ before m patience after, steps = before ++ .dispatch m patience :: after →
      (dispatchAll before yard).2.crew.dismissed = false) :
    Yard.Works none yard none (dispatchAll steps yard).2 := by
  induction steps generalizing yard with
  | nil => exact .refl none yard
  | cons step rest ih =>
    have hfirst : Yard.Works none yard none (step.perform yard).2 := by
      refine step.works ?_ ?_
      · rintro call rfl
        exact hguard call (List.mem_cons_self ..)
      · rintro m patience rfl
        exact hopen [] m patience rest rfl
    refine hfirst.trans (ih (fun call hmem => hguard call (.tail _ hmem)) ?_)
    rintro before m patience after rfl
    exact hopen (step :: before) m patience after rfl

/-- Every rehearsal of the workers in which nobody else calls the guard, and nothing is dispatched
once the crew was dismissed, is a run of a crew at work. The broker has published the outputs that
the deeds tell of, and has written down what they settle. -/
theorem dispatchAll_run (steps : List DispatchStep) (ttl maxEntries queueSize backoff : Nat)
    (wall : Int64) (broker : Broker) (hguard : ∀ call, .guard call ∉ steps)
    (hopen : ∀ before m patience after, steps = before ++ .dispatch m patience :: after →
      (dispatchAll before (.new (sharedAt wall ttl maxEntries) broker queueSize backoff)
        ).2.crew.dismissed = false) :
    ∃ deeds shift,
      Run (silentStore false) (.start ttl maxEntries queueSize (sharedAt wall ttl maxEntries))
        deeds shift ∧
      let yard :=
        (dispatchAll steps (.new (sharedAt wall ttl maxEntries) broker queueSize backoff)).2
      shift.Mirrors yard ∧ broker.Settles (settlements deeds) yard.broker := by
  have hmirrors : (Shift.start ttl maxEntries queueSize (sharedAt wall ttl maxEntries)).Mirrors
      (.new (sharedAt wall ttl maxEntries) broker queueSize backoff) :=
    ⟨rfl, rfl, rfl, rfl, fun _ => rfl, fun _ _ hw => by cases hw⟩
  obtain ⟨deeds, shift, hrun, -, hmirrors', hsettles⟩ :=
    works_dispatchAll steps hguard hopen _ rfl hmirrors
  exact ⟨deeds, shift, hrun, hmirrors', hsettles⟩

end MarketFeed.Rehearsal
