import MarketFeed.Proofs.Consumer.Step

/-!
# Each result is answered

Each result is answered before the next one is taken: dispatch is called with a message, the loop
pauses after an error that it survives, and it stops at any other. So no message is lost, and
none is dispatched twice.
-/

namespace MarketFeed

/-- What the loop does to go on like this. -/
def Continuation.act : Continuation → Act
  | dispatch m => .called m
  | pause millis => .paused millis
  | stop e => .stopped e

/-- The message that was received, if there was no error. -/
def Received.message? : Received → Option InputMessage
  | message m => some m
  | error _ => none

/-- The errors since the last message. -/
def errorsSince (results : List Received) : Nat :=
  (results.reverse.takeWhile fun received => received.message?.isNone).length

/-- What the loop does next after a result, when there were so many errors before it. -/
inductive Received.Answered (errors : Nat) : Received → Act → Prop
  | message (m : InputMessage) : Answered errors (.message m) (.called m)
  | stopped {e : BrokerError} (h : e.Stops) : Answered errors (.error e) (.stopped e)
  | survived {e : BrokerError} (h : ¬ e.Stops) :
      Answered errors (.error e) (.paused (BrokerError.pauseAfter e.trouble? (errors + 1)))

namespace Act

/-- The result that was taken. -/
def received? : Act → Option Received
  | took received => some received
  | _ => none

/-- The message that dispatch was called with. -/
def call? : Act → Option InputMessage
  | called m => some m
  | _ => none

/-- The message of a dispatch that has ended. -/
def handed? : Act → Option InputMessage
  | handed m _ => some m
  | _ => none

/-- It is the loop that does it. -/
def ofLoop : Act → Bool
  | signalled | aside => false
  | _ => true

end Act

/-- The results that were taken, in order. -/
def results (acts : List Act) : List Received := acts.filterMap Act.received?

/-- What is taken first and what is taken later. -/
theorem results_append (acts more : List Act) :
    results (acts ++ more) = results acts ++ results more := List.filterMap_append

/-- The messages that dispatch was called with, in order. -/
def calls (acts : List Act) : List InputMessage := acts.filterMap Act.call?

/-- The messages of the dispatches that have ended, in order. -/
def handovers (acts : List Act) : List InputMessage := acts.filterMap Act.handed?

namespace LoopStage

/-- The message that was taken and not dispatched yet. -/
def owed : LoopStage → List InputMessage
  | taken (.dispatch m) => [m]
  | _ => []

/-- The message that is being dispatched. -/
def inHand : LoopStage → List InputMessage
  | dispatching m => [m]
  | _ => []

end LoopStage

/-- What is collected from one act more stands last. -/
theorem filterMap_snoc {α β : Type} (f : α → Option β) (xs : List α) (x : α) :
    (xs ++ [x]).filterMap f = xs.filterMap f ++ (f x).toList := by
  cases h : f x <;> simp [h]

/-- The last result decides how many errors there were since the last message. -/
theorem errorsSince_snoc (results : List Received) (received : Received) :
    errorsSince (results ++ [received]) =
      if received.message?.isNone then errorsSince results + 1 else 0 := by
  unfold errorsSince
  rw [List.reverse_append, List.reverse_singleton, List.singleton_append, List.takeWhile_cons]
  split <;> rfl

/-- How the loop goes on after a result is the answer to it. -/
theorem Received.answered_handle (received : Received) (errors : Nat)
    (ledger : Ledger) : received.Answered errors (received.handle errors ledger).1.act := by
  cases received with
  | message m => exact .message m
  | error e =>
    by_cases hstops : e.Stops
    · rw [Received.handle_of_stops errors ledger hstops]
      exact .stopped hstops
    · rw [Received.handle_of_survived errors ledger hstops]
      exact .survived hstops

namespace Loop

variable {component : String} {first loop loop' : Loop} {acts quiet : List Act} {act : Act}
  {received : Received}

/-! ## Dispatch -/

/-- A message is owed from when it is taken until dispatch is called with it. -/
theorem Step.called (h : Step component loop act loop') :
    act.call?.toList ++ loop'.stage.owed =
      loop.stage.owed ++ (act.received?.bind Received.message?).toList := by
  cases h with
  | take hstage received ledger =>
    rw [hstage]
    cases received with
    | message m => rfl
    | error e =>
      unfold Received.handle
      dsimp only
      split <;> rfl
  | work | other | signal => exact (List.append_nil _).symm
  | call hstage | hand hstage | pause hstage | stop hstage | notice hstage | report hstage
  | dismiss hstage | wait hstage | flush hstage | commit hstage | unsubscribe hstage =>
    simp [hstage, LoopStage.owed, Act.call?, Act.received?]

/-- A message is in hand from when dispatch is called with it until that has ended. -/
theorem Step.handed (h : Step component loop act loop') :
    act.handed?.toList ++ loop'.stage.inHand = loop.stage.inHand ++ act.call?.toList := by
  cases h with
  | take hstage received ledger =>
    rw [hstage]
    cases received with
    | message m => rfl
    | error e =>
      unfold Received.handle
      dsimp only
      split <;> rfl
  | work | other | signal => exact (List.append_nil _).symm
  | call hstage | hand hstage | pause hstage | stop hstage | notice hstage | report hstage
  | dismiss hstage | wait hstage | flush hstage | commit hstage | unsubscribe hstage =>
    simp [hstage, LoopStage.inHand, Act.call?, Act.handed?]

/-- If what each step brings in goes out or is left, in order, then so it is over a run. -/
theorem Run.flow {α : Type} {enters leaves : Act → Option α} {rest : LoopStage → List α}
    (hflow : ∀ {loop loop' : Loop} {act : Act}, Step component loop act loop' →
      (leaves act).toList ++ rest loop'.stage = rest loop.stage ++ (enters act).toList)
    (h : Run component first acts loop) :
    acts.filterMap leaves ++ rest loop.stage = rest first.stage ++ acts.filterMap enters := by
  induction h with
  | nil => exact (List.append_nil _).symm
  | @snoc acts loop loop' act _ hstep ih =>
    calc (acts ++ [act]).filterMap leaves ++ rest loop'.stage
        = acts.filterMap leaves ++ ((leaves act).toList ++ rest loop'.stage) := by
          rw [filterMap_snoc, List.append_assoc]
      _ = acts.filterMap leaves ++ rest loop.stage ++ (enters act).toList := by
          rw [hflow hstep, List.append_assoc]
      _ = rest first.stage ++ (acts ++ [act]).filterMap enters := by
          rw [ih, filterMap_snoc, List.append_assoc]

/-- Dispatch is called for each message received, once and in order, and for nothing else. -/
theorem Run.called (h : Run component first acts loop) (hfirst : first.stage = .listening) :
    calls acts ++ loop.stage.owed = (results acts).filterMap Received.message? := by
  have hflow := h.flow Step.called
  rw [hfirst] at hflow
  rw [results, List.filterMap_filterMap]
  exact hflow

/-- Each dispatch ends before the next one. -/
theorem Run.handed (h : Run component first acts loop) (hfirst : first.stage = .listening) :
    handovers acts ++ loop.stage.inHand = calls acts := by
  have hflow := h.flow Step.handed
  rw [hfirst] at hflow
  exact hflow

/-! ## Answers -/

/-- A result is counted. -/
theorem Step.errors (h : Step component loop act loop') :
    loop'.errors = act.received?.elim loop.errors fun received =>
      if received.message?.isNone then loop.errors + 1 else 0 := by
  cases h with
  | take _ received => cases received <;> rfl
  | _ => rfl

/-- The loop counts the errors since the last message. -/
theorem Run.errors (h : Run component first acts loop) (hfirst : first.errors = 0) :
    loop.errors = errorsSince (results acts) := by
  induction h with
  | nil => exact hfirst
  | @snoc acts loop loop' act _ hstep ih =>
    rw [hstep.errors, ih, results, results, filterMap_snoc]
    cases act.received? with
    | none => rw [Option.toList_none, List.append_nil]; rfl
    | some received => exact (errorsSince_snoc _ received).symm

/-- A step that is not the loop's leaves it at what it is. -/
theorem Step.stage_of_other (h : Step component loop act loop') (hother : act.ofLoop = false) :
    loop'.stage = loop.stage := by
  cases h <;> first | rfl | cases hother

/-- Steps that are not the loop's leave it at what it is. -/
theorem Run.stage_of_quiet (h : Run component first quiet loop)
    (hquiet : ∀ other ∈ quiet, other.ofLoop = false) : loop.stage = first.stage := by
  induction h with
  | nil => rfl
  | snoc _ hstep ih =>
    have hlast := hstep.stage_of_other (hquiet _ (List.mem_concat_self ..))
    exact hlast.trans (ih fun other hother => hquiet other (List.mem_append_left _ hother))

/-- From a result that it has taken, the loop goes on as it is to. -/
theorem Step.act_of_taken {next : Continuation} (h : Step component loop act loop')
    (hloop : act.ofLoop = true) (hstage : loop.stage = .taken next) : act = next.act := by
  cases h with
  | call h | pause h | stop h =>
    cases hstage.symm.trans h
    rfl
  | signal | work | other => cases hloop
  | take h | hand h | notice h | report h | dismiss h | wait h | flush h | commit h
  | unsubscribe h => cases hstage.symm.trans h

/-- What the loop does after a result is the answer to it. -/
theorem Run.answered {before after : List Act}
    (h : Run component first (before ++ .took received :: (quiet ++ act :: after)) loop)
    (hfirst : first.errors = 0) (hquiet : ∀ other ∈ quiet, other.ofLoop = false)
    (hloop : act.ofLoop = true) : received.Answered (errorsSince (results before)) act := by
  have hparts : before ++ .took received :: (quiet ++ act :: after) =
      before ++ [.took received] ++ quiet ++ [act] ++ after := by simp
  rw [hparts] at h
  obtain ⟨_, hrun, -⟩ := h.of_append
  obtain ⟨_, hrun, hact⟩ := hrun.of_snoc
  obtain ⟨_, hrun, hquietly⟩ := hrun.of_append
  obtain ⟨listening, hbefore, htake⟩ := hrun.of_snoc
  rw [← hbefore.errors hfirst]
  have hstage := hquietly.stage_of_quiet hquiet
  cases htake with
  | take _ _ ledger =>
    rw [hact.act_of_taken hloop hstage]
    exact received.answered_handle listening.errors ledger

end Loop

end MarketFeed
