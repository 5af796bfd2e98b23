import MarketFeed.Proofs.Consumer.Answers
import MarketFeed.Proofs.Health.Liveness

/-!
# What stops the loop, and its closing

What stops the loop is the last thing that it takes or notices. That the service is to stop does not
stop it before it notices. From there on only the closing is left: five acts in a fixed order, none
of which can keep the next one from following, whatever becomes of it. A loop that an error has
stopped is left unhealthy, and fails with that error unless it is only the end of the client.
-/

namespace MarketFeed

namespace Act

/-- It belongs to the closing. -/
def closes : Act → Bool
  | dismissed | waited _ | flushed _ | committed _ | unsubscribed => true
  | _ => false

/-- What stops the loop: that the service is to stop, and some errors. -/
inductive Stops : Act → Prop
  | noticed : Stops .noticed
  | error {e : BrokerError} (h : e.Stops) : Stops (.took (.error e))

end Act

/-- What belongs to the closing, in order. -/
def closings (acts : List Act) : List Act := acts.filter Act.closes

/-- The closing, whatever becomes of its parts: the workers are dismissed and waited for, the
producer is flushed, the stored offsets are committed, and the consumer is unsubscribed. -/
def wholeClosing (done : Bool) (flushed committed : Option BrokerError) : List Act :=
  [.dismissed, .waited done, .flushed flushed, .committed committed, .unsubscribed]

namespace LoopStage

/-- The loop has been stopped. -/
def isOver : LoopStage → Bool
  | listening | taken (.dispatch _) | taken (.pause _) | dispatching _ => false
  | _ => true

/-- How much of the closing is done. -/
def closed : LoopStage → Nat
  | waiting => 1
  | flushing => 2
  | committing => 3
  | unsubscribing => 4
  | finished => 5
  | _ => 0

/-- What is left to do before the closing. -/
def beforeClosing : LoopStage → List Act
  | taken (.stop e) => [.stopped e]
  | _ => []

end LoopStage

namespace Loop

variable {component : String} {first loop loop' : Loop} {acts more before after : List Act}
  {act : Act} {e : BrokerError}

/-! ## What stops the loop -/

/-- A result stops the loop if it is an error that does. -/
theorem isOver_handle (received : Received) (errors : Nat) (ledger : Ledger) :
    (LoopStage.taken (received.handle errors ledger).1).isOver = true ↔
      (Act.took received).Stops := by
  cases received with
  | message m => exact ⟨nofun, nofun⟩
  | error e =>
    by_cases hstops : e.Stops
    · rw [Received.handle_of_stops errors ledger hstops]
      exact ⟨fun _ => .error hstops, fun _ => rfl⟩
    · rw [Received.handle_of_survived errors ledger hstops]
      refine ⟨nofun, fun h => ?_⟩
      cases h with
      | error h => exact absurd h hstops

/-- The loop is over after a step exactly if it was so before or if the step stops it. -/
theorem Step.isOver_iff (h : Step component loop act loop') :
    loop'.stage.isOver = true ↔ loop.stage.isOver = true ∨ act.Stops := by
  cases h with
  | take hstage received ledger =>
    rw [hstage, isOver_handle]
    exact ⟨.inr, fun h => h.resolve_left nofun⟩
  | notice => exact ⟨fun _ => .inr .noticed, fun _ => rfl⟩
  | work | other | signal => exact ⟨.inl, fun h => h.resolve_right nofun⟩
  | call hstage | hand hstage | pause hstage | report hstage =>
    simp only [hstage]
    exact ⟨nofun, fun h => h.elim nofun nofun⟩
  | stop hstage | dismiss hstage | wait hstage | flush hstage | commit hstage
  | unsubscribe hstage =>
    rw [hstage]
    exact ⟨fun _ => .inl rfl, fun _ => rfl⟩

/-- The loop is stopped by what stops it, and by nothing else. -/
theorem Run.isOver_iff (h : Run component first acts loop) (hfirst : first.stage = .listening) :
    loop.stage.isOver = true ↔ ∃ act ∈ acts, act.Stops := by
  induction h with
  | nil =>
    rw [hfirst]
    exact ⟨nofun, fun ⟨_, hmem, _⟩ => absurd hmem List.not_mem_nil⟩
  | snoc _ hstep ih =>
    rw [hstep.isOver_iff, ih]
    simp only [List.mem_append, List.mem_singleton, or_and_right, exists_or, exists_eq_left]

/-- The loop listens when it is stopped. -/
theorem Step.listens (h : Step component loop act loop') (hstops : act.Stops) :
    loop.stage = .listening := by
  cases h with
  | take hstage | notice hstage => exact hstage
  | _ => cases hstops

/-- A loop that is over takes nothing and dispatches nothing. -/
theorem Step.last (h : Step component loop act loop') (hover : loop.stage.isOver = true) :
    act.received? = none ∧ act.call? = none := by
  cases h with
  | take hstage | call hstage =>
    rw [hstage] at hover
    cases hover
  | _ => exact ⟨rfl, rfl⟩

/-- Once it is over, the loop takes nothing and dispatches nothing any more, and nothing stops it
again. -/
theorem Run.last (h : Run component first acts loop) (hover : first.stage.isOver = true) :
    loop.stage.isOver = true ∧ (∀ act ∈ acts, ¬ act.Stops) ∧ results acts = [] ∧
      calls acts = [] := by
  induction h with
  | nil => exact ⟨hover, nofun, rfl, rfl⟩
  | snoc _ hstep ih =>
    obtain ⟨hover, hnever, hresults, hcalls⟩ := ih
    obtain ⟨hreceived, hcall⟩ := hstep.last hover
    refine ⟨hstep.isOver_iff.mpr (.inl hover), ?_, ?_, ?_⟩
    · intro other hmem hstops
      obtain hmem | hmem := List.mem_append.mp hmem
      · exact hnever other hmem hstops
      · cases List.mem_singleton.mp hmem
        rw [hstep.listens hstops] at hover
        cases hover
    · rw [results, filterMap_snoc, hreceived, ← results, hresults]
      rfl
    · rw [calls, filterMap_snoc, hcall, ← calls, hcalls]
      rfl

/-- Where the loop is stopped, a run falls into two. -/
theorem Run.part (h : Run component first (before ++ act :: after) loop) (hstops : act.Stops) :
    ∃ listening stopped, Run component first before listening ∧
      Step component listening act stopped ∧ stopped.stage.isOver = true ∧
        Run component stopped after loop := by
  rw [List.append_cons] at h
  obtain ⟨stopped, hrun, hafter⟩ := h.of_append
  obtain ⟨listening, hbefore, hstep⟩ := hrun.of_snoc
  exact ⟨listening, stopped, hbefore, hstep, hstep.isOver_iff.mpr (.inr hstops), hafter⟩

/-- The service is to stop if it was so from the beginning, or from when that was signalled. -/
theorem Run.stopping_iff (h : Run component first acts loop) :
    loop.stopping = true ↔ first.stopping = true ∨ .signalled ∈ acts := by
  induction h with
  | nil => simp
  | snoc _ hstep ih => cases hstep <;> simp [ih]

/-- The loop notices nothing that is not so. -/
theorem Run.told (h : Run component first acts loop) (hnoticed : .noticed ∈ acts) :
    first.stopping = true ∨ .signalled ∈ acts := by
  obtain ⟨before, after, rfl⟩ := List.append_of_mem hnoticed
  obtain ⟨listening, _, hbefore, hstep, -⟩ := h.part .noticed
  cases hstep with
  | notice _ hstopping =>
    exact (hbefore.stopping_iff.mp hstopping).imp_right (List.mem_append_left _)

/-! ## The closing -/

/-- What belongs to the closing first and then. -/
theorem closings_append (acts more : List Act) :
    closings (acts ++ more) = closings acts ++ closings more := List.filter_append ..

/-- The closing is done in order, as far as it is done. -/
theorem Run.closing (h : Run component first acts loop) (hfirst : first.stage = .listening) :
    ∃ done flushed committed,
      closings acts = (wholeClosing done flushed committed).take loop.stage.closed := by
  induction h with
  | nil => exact ⟨false, none, none, by rw [hfirst]; rfl⟩
  | snoc _ hstep ih =>
    obtain ⟨done, flushed, committed, hclosings⟩ := ih
    cases hstep with
    | take hstage | call hstage | hand hstage | pause hstage | stop hstage | notice hstage
    | report hstage =>
      rw [hstage] at hclosings
      refine ⟨done, flushed, committed, ?_⟩
      rw [closings_append, hclosings]
      simp only [hstage]
      rfl
    | signal | work | other =>
      exact ⟨done, flushed, committed, by rw [closings_append, hclosings]; exact List.append_nil _⟩
    | dismiss hstage =>
      rw [hstage] at hclosings
      exact ⟨done, flushed, committed, by rw [closings_append, hclosings]; rfl⟩
    | wait hstage done =>
      rw [hstage] at hclosings
      exact ⟨done, flushed, committed, by rw [closings_append, hclosings]; rfl⟩
    | flush hstage failure =>
      rw [hstage] at hclosings
      exact ⟨done, failure, committed, by rw [closings_append, hclosings]; rfl⟩
    | commit hstage failure =>
      rw [hstage] at hclosings
      exact ⟨done, flushed, failure, by rw [closings_append, hclosings]; rfl⟩
    | unsubscribe hstage =>
      rw [hstage] at hclosings
      exact ⟨done, flushed, committed, by rw [closings_append, hclosings]; rfl⟩

/-- After what stops it, the loop takes nothing and dispatches nothing, and it does not close
before. -/
theorem Run.stopped_last (h : Run component first (before ++ act :: after) loop)
    (hfirst : first.stage = .listening) (hstops : act.Stops) :
    (∀ other ∈ after, ¬ other.Stops) ∧ results after = [] ∧ calls after = [] ∧
      closings before = [] := by
  obtain ⟨listening, stopped, hbefore, hstep, hover, hafter⟩ := h.part hstops
  obtain ⟨-, hnever, hresults, hcalls⟩ := hafter.last hover
  obtain ⟨done, flushed, committed, hclosings⟩ := hbefore.closing hfirst
  rw [hstep.listens hstops] at hclosings
  exact ⟨hnever, hresults, hcalls, hclosings⟩

section Finishing

variable (done : Bool) (flushed committed : Option BrokerError)

/-- The rest of the closing can be done. -/
def Finishes (component : String) (loop : Loop) (rest : List Act) : Prop :=
  ∃ loop', loop'.stage = .finished ∧ Run component loop rest loop'

/-- What can be done after a step can be done from before it, with the step. -/
theorem Finishes.since {rest : List Act} (hstep : Step component loop act loop')
    (h : Finishes component loop' rest) : Finishes component loop (act :: rest) := by
  obtain ⟨last, hfinished, hrest⟩ := h
  exact ⟨last, hfinished, (Run.single hstep).append hrest⟩

/-- When the offsets were to be committed, the consumer is unsubscribed. -/
theorem finishes_of_unsubscribing (hstage : loop.stage = .unsubscribing) :
    Finishes component loop ((wholeClosing done flushed committed).drop 4) :=
  ⟨_, rfl, .single (.unsubscribe hstage)⟩

/-- When the producer was to be flushed, the offsets are committed. -/
theorem finishes_of_committing (hstage : loop.stage = .committing) :
    Finishes component loop ((wholeClosing done flushed committed).drop 3) :=
  .since (.commit hstage committed) (finishes_of_unsubscribing done flushed committed rfl)

/-- When the workers were waited for, the producer is flushed. -/
theorem finishes_of_flushing (hstage : loop.stage = .flushing) :
    Finishes component loop ((wholeClosing done flushed committed).drop 2) :=
  .since (.flush hstage flushed) (finishes_of_committing done flushed committed rfl)

/-- When the workers are dismissed, they are waited for. -/
theorem finishes_of_waiting (hstage : loop.stage = .waiting)
    (hdone : done = true → loop.crew.hasEnded = true) :
    Finishes component loop ((wholeClosing done flushed committed).drop 1) :=
  .since (.wait hstage done hdone) (finishes_of_flushing done flushed committed rfl)

/-- A loop that leaves dismisses the workers. -/
theorem finishes_of_leaving (hstage : loop.stage = .leaving)
    (hdone : done = true → loop.crew.hasEnded = true) :
    Finishes component loop (wholeClosing done flushed committed) :=
  .since (.dismiss hstage) (finishes_of_waiting done flushed committed rfl hdone)

/-- A loop that is over can always do the rest of the closing, whatever becomes of its parts. -/
theorem finishes_of_isOver (hover : loop.stage.isOver = true)
    (hdone : done = true → loop.crew.hasEnded = true) :
    Finishes component loop (loop.stage.beforeClosing ++
      (wholeClosing done flushed committed).drop loop.stage.closed) := by
  cases hstage : loop.stage with
  | taken next =>
    rw [hstage] at hover
    cases next with
    | stop e => exact .since (.stop hstage) (finishes_of_leaving done flushed committed rfl hdone)
    | dispatch m => cases hover
    | pause millis => cases hover
  | leaving => exact finishes_of_leaving done flushed committed hstage hdone
  | waiting => exact finishes_of_waiting done flushed committed hstage hdone
  | flushing => exact finishes_of_flushing done flushed committed hstage
  | committing => exact finishes_of_committing done flushed committed hstage
  | unsubscribing => exact finishes_of_unsubscribing done flushed committed hstage
  | finished => exact ⟨loop, hstage, .nil⟩
  | listening | dispatching m =>
    rw [hstage] at hover
    cases hover

end Finishing

/-! ## The error that has stopped the loop -/

/-- The error that the loop has been stopped by, also before it has acted on it. -/
def stopError? (loop : Loop) : Option BrokerError :=
  match loop.stage with
  | .taken (.stop e) => some e
  | _ => loop.stoppedBy

/-- Only an error that stops the loop changes the error that it has been stopped by. -/
theorem Step.stopError? (h : Step component loop act loop') :
    loop'.stopError? = loop.stopError? ∨
      ∃ e, act = .took (.error e) ∧ e.Stops ∧ loop'.stopError? = some e := by
  cases h with
  | take hstage received ledger =>
    have hbefore : loop.stopError? = loop.stoppedBy := by rw [Loop.stopError?, hstage]
    rw [hbefore]
    cases received with
    | message m => exact .inl rfl
    | error e =>
      by_cases hstops : e.Stops
      · have hnext := Received.handle_of_stops loop.errors ledger hstops
        exact .inr ⟨e, rfl, hstops, by rw [Loop.stopError?, hnext]⟩
      · have hnext := Received.handle_of_survived loop.errors ledger hstops
        exact .inl (by rw [Loop.stopError?, hnext])
  | work | other | signal => exact .inl rfl
  | call hstage | hand hstage | pause hstage | stop hstage | notice hstage | report hstage
  | dismiss hstage | wait hstage | flush hstage | commit hstage | unsubscribe hstage =>
    left
    simp only [Loop.stopError?, hstage]

/-- What has stopped a loop is an error that it has taken. -/
theorem Run.took_of_stopError (h : Run component first acts loop)
    (hfirst : first.stopError? = none) (hstopped : loop.stopError? = some e) :
    .took (.error e) ∈ acts ∧ e.Stops := by
  induction h with
  | nil => rw [hfirst] at hstopped; cases hstopped
  | snoc _ hstep ih =>
    obtain hsame | ⟨e', rfl, hstops, herror⟩ := hstep.stopError?
    · obtain ⟨hmem, hstops⟩ := ih (hsame ▸ hstopped)
      exact ⟨List.mem_append_left _ hmem, hstops⟩
    · cases herror.symm.trans hstopped
      exact ⟨List.mem_concat_self .., hstops⟩

/-- Once the loop is over, what it has been stopped by stays. -/
theorem Run.stopError?_of_isOver (h : Run component first acts loop)
    (hover : first.stage.isOver = true) : loop.stopError? = first.stopError? := by
  induction h with
  | nil => rfl
  | snoc hrun hstep ih =>
    obtain hsame | ⟨e, rfl, -, -⟩ := hstep.stopError?
    · exact hsame.trans ih
    · cases (hstep.last (hrun.last hover).1).1

/-- An error that stops the loop and that it has taken is what it has been stopped by. -/
theorem Run.stopError_of_took (h : Run component first acts loop) (hstops : e.Stops)
    (htook : .took (.error e) ∈ acts) : loop.stopError? = some e := by
  obtain ⟨before, after, rfl⟩ := List.append_of_mem htook
  obtain ⟨listening, stopped, -, hstep, hover, hafter⟩ := h.part (.error hstops)
  rw [hafter.stopError?_of_isOver hover]
  cases hstep with
  | take _ _ ledger => rw [Loop.stopError?, Received.handle_of_stops listening.errors ledger hstops]

/-- When nothing is left to do before the closing, the loop has acted on what has stopped it. -/
theorem stoppedBy_eq (h : loop.stage.beforeClosing = []) : loop.stoppedBy = loop.stopError? := by
  unfold stopError?
  split
  · rename_i e hstage
    rw [hstage] at h
    cases h
  · rfl

/-- The loop fails exactly with an error that has stopped it, except for the end of the client. -/
theorem Run.failure (h : Run component first acts loop) (hfirst : first.stopError? = none)
    (hfinished : loop.stage = .finished) :
    loopFailure? loop.stoppedBy = some e ↔ .took (.error e) ∈ acts ∧ e.Stops ∧ e ≠ .canceled := by
  have hfailure (stopped : Option BrokerError) :
      loopFailure? stopped = some e ↔ stopped = some e ∧ e ≠ .canceled := by
    unfold loopFailure?
    split <;> aesop
  rw [hfailure, stoppedBy_eq (by rw [hfinished]; rfl)]
  constructor
  · rintro ⟨hstopped, hother⟩
    obtain ⟨htook, hstops⟩ := h.took_of_stopError hfirst hstopped
    exact ⟨htook, hstops, hother⟩
  · rintro ⟨htook, hstops, hother⟩
    exact ⟨h.stopError_of_took hstops htook, hother⟩

/-- A loop that an error has stopped is left unhealthy. -/
theorem Run.unhealthy (h : Run component first acts loop) (hfirst : first.stoppedBy = none)
    (hstopped : loop.stoppedBy ≠ none) :
    loop.stage.isOver = true ∧ loop.registry.lookup component = some .unhealthy := by
  induction h with
  | nil => exact absurd hfirst hstopped
  | snoc _ hstep ih =>
    cases hstep with
    | stop => exact ⟨rfl, HealthRegistry.lookup_report_self _⟩
    | other hother =>
      obtain ⟨hover, hunhealthy⟩ := ih hstopped
      exact ⟨hover, (HealthRegistry.lookup_report_of_ne _ hother).trans hunhealthy⟩
    | signal | work => exact ih hstopped
    | take hstage | call hstage | hand hstage | pause hstage | notice hstage | report hstage =>
      obtain ⟨hover, -⟩ := ih hstopped
      rw [hstage] at hover
      cases hover
    | dismiss | wait | flush | commit | unsubscribe => exact ⟨rfl, (ih hstopped).2⟩

end Loop

end MarketFeed
