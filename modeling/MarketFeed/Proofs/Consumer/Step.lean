import MarketFeed.Health
import MarketFeed.Partition.Crew
import MarketFeed.Proofs.Consumer.Reaction
import Mathlib.Data.List.Induction

/-!
# The consumer loop, step by step

The loop takes a result, and does what the result asks for before it takes the next one: it calls
dispatch, which ends when the message is in a queue or its worker has ended; it pauses; or it
stops. Between two results it may notice that the service is to stop, and then it does not listen
any more. Nothing orders the two: if the service is to stop and there is a result, the loop may
take the result first, and the next one, too.

Once it has stopped, the loop dismisses the workers and waits for them, but not for longer than a
timeout. Then it flushes the producer, commits the stored offsets, and unsubscribes, whatever
becomes of each. Meanwhile the workers do what they do; nothing is assumed of it here.
-/

namespace MarketFeed

/-- What the loop is at. -/
inductive LoopStage
  | listening
  /-- It has taken a result, and goes on like this. -/
  | taken (next : Continuation)
  /-- It has called dispatch. -/
  | dispatching (m : InputMessage)
  /-- It has stopped, and nothing else has been done. -/
  | leaving
  /-- It waits for the workers. -/
  | waiting
  | flushing
  | committing
  | unsubscribing
  | finished

/-- What happens in one step. -/
inductive Act
  | took (received : Received)
  /-- Dispatch is called. -/
  | called (m : InputMessage)
  /-- Dispatch has ended. -/
  | handed (m : InputMessage) (handover : Handover)
  | paused (millis : Nat)
  /-- The loop has stopped at an error. -/
  | stopped (e : BrokerError)
  /-- The loop has noticed that the service is to stop. -/
  | noticed
  /-- The loop reports that it is healthy. -/
  | reported
  | dismissed
  /-- The workers have ended, or the time for it is over. -/
  | waited (done : Bool)
  | flushed (failure : Option BrokerError)
  | committed (failure : Option BrokerError)
  | unsubscribed
  /-- The service is to stop. -/
  | signalled
  /-- A worker does something, or another component reports. -/
  | aside

/-- The loop: the crew that it hands messages over to, whether the service is to stop, the errors
since the last message, the reports of the components, what it is at, and the error that it has
stopped at. -/
structure Loop where
  crew : Crew
  stopping : Bool
  errors : Nat
  registry : HealthRegistry
  stage : LoopStage
  stoppedBy : Option BrokerError

namespace Loop

/-- The loop before its first step. -/
def begin (crew : Crew) (stopping : Bool) (registry : HealthRegistry) : Loop :=
  ⟨crew, stopping, 0, registry, .listening, none⟩

/-- One step, of a loop that reports for a component. -/
inductive Step (component : String) (loop : Loop) : Act → Loop → Prop
  | take (hstage : loop.stage = .listening) (received : Received) (ledger : Ledger) :
      Step component loop (.took received)
        { loop with
          errors := (received.handle loop.errors ledger).2.1
          stage := .taken (received.handle loop.errors ledger).1 }
  | call {m : InputMessage} (hstage : loop.stage = .taken (.dispatch m)) :
      Step component loop (.called m)
        { loop with crew := (loop.crew.hire m.partition).2, stage := .dispatching m }
  | hand {m : InputMessage} {handover : Handover} {crew : Crew}
      (hstage : loop.stage = .dispatching m) (h : loop.crew.handOver m = (handover, crew))
      (hdone : handover ≠ .waiting) :
      Step component loop (.handed m handover) { loop with crew := crew, stage := .listening }
  | pause {millis : Nat} (hstage : loop.stage = .taken (.pause millis)) :
      Step component loop (.paused millis) { loop with stage := .listening }
  | stop {e : BrokerError} (hstage : loop.stage = .taken (.stop e)) :
      Step component loop (.stopped e)
        { loop with
          registry := loop.registry.report component .unhealthy
          stage := .leaving
          stoppedBy := some e }
  | notice (hstage : loop.stage = .listening) (hstopping : loop.stopping = true) :
      Step component loop .noticed { loop with stage := .leaving }
  | report (hstage : loop.stage = .listening) (deadline : Instant) :
      Step component loop .reported
        { loop with registry := loop.registry.report component (.healthyUntil deadline) }
  | dismiss (hstage : loop.stage = .leaving) :
      Step component loop .dismissed { loop with crew := loop.crew.dismiss, stage := .waiting }
  | wait (hstage : loop.stage = .waiting) (done : Bool)
      (h : done = true → loop.crew.hasEnded = true) :
      Step component loop (.waited done) { loop with stage := .flushing }
  | flush (hstage : loop.stage = .flushing) (failure : Option BrokerError) :
      Step component loop (.flushed failure) { loop with stage := .committing }
  | commit (hstage : loop.stage = .committing) (failure : Option BrokerError) :
      Step component loop (.committed failure) { loop with stage := .unsubscribing }
  | unsubscribe (hstage : loop.stage = .unsubscribing) :
      Step component loop .unsubscribed { loop with stage := .finished }
  | signal : Step component loop .signalled { loop with stopping := true }
  | work (p : Partition) (w : Worker) :
      Step component loop .aside { loop with crew := loop.crew.set p w }
  | other {name : String} (hother : name ≠ component) (status : ComponentStatus) :
      Step component loop .aside { loop with registry := loop.registry.report name status }

/-- A run of the loop: what happens in order, and where it leads. -/
inductive Run (component : String) (first : Loop) : List Act → Loop → Prop
  | nil : Run component first [] first
  | snoc {acts : List Act} {loop loop' : Loop} {act : Act} (hrun : Run component first acts loop)
      (hstep : Step component loop act loop') : Run component first (acts ++ [act]) loop'

namespace Run

variable {component : String} {first loop loop' : Loop} {acts more : List Act} {act : Act}

/-- A step is a run. -/
theorem single (h : Step component loop act loop') : Run component loop [act] loop' :=
  snoc .nil h

/-- A run goes on with another one. -/
theorem append (h : Run component first acts loop) (hmore : Run component loop more loop') :
    Run component first (acts ++ more) loop' := by
  induction hmore with
  | nil => rwa [List.append_nil]
  | snoc _ hstep ih =>
    rw [← List.append_assoc]
    exact ih.snoc hstep

/-- The last step of a run. -/
theorem of_snoc (h : Run component first (acts ++ [act]) loop') :
    ∃ loop, Run component first acts loop ∧ Step component loop act loop' := by
  generalize hall : acts ++ [act] = all at h
  cases h with
  | nil => simp at hall
  | snoc hrun hstep =>
    obtain ⟨rfl, hlast⟩ := List.append_inj' hall rfl
    cases hlast
    exact ⟨_, hrun, hstep⟩

/-- A run falls into two wherever it is parted. -/
theorem of_append (h : Run component first (acts ++ more) loop') :
    ∃ loop, Run component first acts loop ∧ Run component loop more loop' := by
  induction more using List.reverseRecOn generalizing loop' with
  | nil => exact ⟨loop', by simpa using h, .nil⟩
  | append_singleton more act ih =>
    rw [← List.append_assoc] at h
    obtain ⟨loop₁, hrun, hstep⟩ := h.of_snoc
    obtain ⟨loop, hacts, hmore⟩ := ih hrun
    exact ⟨loop, hacts, hmore.snoc hstep⟩

end Run

end Loop

end MarketFeed
