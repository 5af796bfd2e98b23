import MarketFeed.Proofs.Consumer.Closing

/-!
# The loop keeps its order

However the workers behave, whenever the service is to stop, and whatever the consumer answers, the
loop dispatches all that it receives, survives what it can, and closes in order. It is not the
signal that stops the loop but that the loop notices it. It can do so whenever it listens; if there
are results as well, it may take some of them before.
-/

namespace MarketFeed.Loop

/-- What has happened up to a loop keeps the order. At first it listens. -/
structure Regular (component : String) (first : Loop) (acts : List Act) (loop : Loop) : Prop where
  /-- Dispatch is called for each message received, once and in order, and for nothing else. -/
  called : calls acts ++ loop.stage.owed = (results acts).filterMap Received.message?
  /-- Each dispatch ends before the next one. -/
  handed : handovers acts ++ loop.stage.inHand = calls acts
  /-- What the loop does after a result is the answer to it. -/
  answered : ∀ before received quiet act after,
    acts = before ++ .took received :: (quiet ++ act :: after) →
      (∀ other ∈ quiet, other.ofLoop = false) → act.ofLoop = true →
        received.Answered (errorsSince (results before)) act
  /-- No pause is long. -/
  paused : ∀ millis, .paused millis ∈ acts → millis ≤ longestPause
  /-- The loop is stopped by what stops it, and by nothing else. -/
  stops : loop.stage.isOver = true ↔ ∃ act ∈ acts, act.Stops
  /-- The service is to stop from when that was signalled. -/
  signalled : loop.stopping = true ↔ first.stopping = true ∨ .signalled ∈ acts
  /-- The loop notices that the service is to stop only if it is. -/
  told : .noticed ∈ acts → first.stopping = true ∨ .signalled ∈ acts
  /-- A loop that listens can notice at once that the service is to stop, and then close, whatever
  becomes of the parts of the closing. -/
  heeds : loop.stage = .listening → loop.stopping = true → ∀ done flushed committed,
    (done = true → loop.crew.hasEnded = true) →
      Finishes component loop (.noticed :: wholeClosing done flushed committed)
  /-- Nothing stops the loop twice. After what stops it, it takes nothing and dispatches nothing,
  and it does not close before. -/
  last : ∀ before act after, acts = before ++ act :: after → act.Stops →
    (∀ other ∈ after, ¬ other.Stops) ∧ results after = [] ∧ calls after = [] ∧
      closings before = []
  /-- The closing is done in order, as far as it is done. -/
  closing : ∃ done flushed committed,
    closings acts = (wholeClosing done flushed committed).take loop.stage.closed
  /-- Once the loop is stopped, what is left can always be done, whatever becomes of its parts. -/
  finishes : loop.stage.isOver = true → ∀ done flushed committed,
    (done = true → loop.crew.hasEnded = true) →
      Finishes component loop (loop.stage.beforeClosing ++
        (wholeClosing done flushed committed).drop loop.stage.closed)
  /-- The loop fails exactly with an error that has stopped it, except for the end of the client. -/
  failure : loop.stage = .finished → ∀ e,
    loopFailure? loop.stoppedBy = some e ↔ .took (.error e) ∈ acts ∧ e.Stops ∧ e ≠ .canceled
  /-- A loop that an error has stopped is left unhealthy. -/
  unhealthy : loop.stage.beforeClosing = [] → ∀ e, e.Stops → .took (.error e) ∈ acts → ∀ now,
    (component, .unhealthy) ∈ loop.registry.components now ∧ loop.registry.isHealthy now = false

variable {component : String} {first loop loop' : Loop} {acts : List Act} {act : Act}

/-- The loop is to pause, if at all, for a short time. -/
def PausesBriefly (loop : Loop) : Prop :=
  ∀ millis, loop.stage = .taken (.pause millis) → millis ≤ longestPause

/-- After a step, too, the loop is to pause for a short time. -/
theorem Step.pausesBriefly (h : Step component loop act loop') (hdue : loop.PausesBriefly) :
    loop'.PausesBriefly := by
  cases h with
  | take hstage received ledger =>
    intro millis hpause
    cases received with
    | message m => cases hpause
    | error e =>
      by_cases hstops : e.Stops
      · simp only [Received.handle_of_stops loop.errors ledger hstops] at hpause
        cases hpause
      · simp only [Received.handle_of_survived loop.errors ledger hstops] at hpause
        cases hpause
        exact BrokerError.pauseAfter_le _ _
  | signal | work | other => exact hdue
  | report hstage => exact hdue
  | _ => exact nofun

/-- The loop pauses for as long as it is to. -/
theorem Run.paused (h : Run component first acts loop) (hfirst : first.stage = .listening) :
    loop.PausesBriefly ∧ ∀ millis, .paused millis ∈ acts → millis ≤ longestPause := by
  induction h with
  | nil =>
    refine ⟨?_, nofun⟩
    intro millis hpause
    cases hfirst.symm.trans hpause
  | snoc _ hstep ih =>
    obtain ⟨hdue, hpaused⟩ := ih
    refine ⟨hstep.pausesBriefly hdue, fun millis hmem => ?_⟩
    obtain hmem | hmem := List.mem_append.mp hmem
    · exact hpaused millis hmem
    · cases List.mem_singleton.mp hmem
      cases hstep with
      | pause hstage => exact hdue millis hstage

/-- Every run of a loop that first listens keeps the order. -/
theorem Run.isRegular {crew : Crew} {stopping : Bool} {registry : HealthRegistry}
    (h : Run component (begin crew stopping registry) acts loop) :
    Regular component (begin crew stopping registry) acts loop where
  called := h.called rfl
  handed := h.handed rfl
  answered := by
    rintro before received quiet act after rfl hquiet hloop
    exact h.answered rfl hquiet hloop
  paused := (h.paused rfl).2
  stops := h.isOver_iff rfl
  signalled := h.stopping_iff
  told := h.told
  heeds := fun hstage hstopping done flushed committed hdone =>
    .since (.notice hstage hstopping) (finishes_of_leaving done flushed committed rfl hdone)
  last := by
    rintro before act after rfl hstops
    exact h.stopped_last rfl hstops
  closing := h.closing rfl
  finishes := fun hover done flushed committed hdone =>
    finishes_of_isOver done flushed committed hover hdone
  failure := fun hfinished e => h.failure rfl hfinished
  unhealthy := by
    intro hclosing e hstops htook now
    have hstopped := (stoppedBy_eq hclosing).trans (h.stopError_of_took hstops htook)
    have hreported := h.unhealthy rfl (by rw [hstopped]; simp)
    exact HealthRegistry.unhealthy_of_lookup hreported.2 now

end MarketFeed.Loop
