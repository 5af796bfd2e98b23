import MarketFeed.Proofs.Partition.Crew
import MarketFeed.Proofs.Traffic.Once

/-!
# A crew at work, step by step

Messages are handed over one after the other, and the workers of their partitions take and
finish them meanwhile, each in its own time. The deliveries of the workers share the guard, so
the steps of a crew at work contain those of the traffic of its deliveries; the other steps
hand messages over, store offsets, and end workers.

Before a worker takes a message it looks whether the service is to stop. These are two steps, and
the signal may come between them; the worker then takes the message all the same. Otherwise, if the
service is to stop, a worker ends when it would take a message, and when it would try one again.
-/

namespace MarketFeed

/-- A message that the worker of a partition takes; the first one has number zero. -/
structure Ticket where
  partition : Partition
  number : Nat
  deriving DecidableEq, Repr

/-- What a message is taken for. -/
abbrev InputMessage.intake (m : InputMessage) : Intake := .ofMessage m.payload m.source

/-- What happens in one step of a crew at work. -/
inductive Deed
  /-- A message is to be handed over; a worker is hired if its partition has none. -/
  | called (m : InputMessage)
  /-- The message is in the queue, or its worker has ended. -/
  | handed (m : InputMessage) (handover : Handover)
  /-- The message was not handed over, since there was no place for too long. -/
  | abandoned (m : InputMessage)
  /-- The worker of a partition has found that the service is not to stop. -/
  | looked (p : Partition)
  | taken (ticket : Ticket) (m : InputMessage)
  | moved (move : Move Ticket)
  /-- A place was to be stored, and was stored or not. -/
  | stored (ticket : Ticket) (place : Coordinates) (done : Bool)
  | ended (p : Partition)
  /-- The service is to stop. -/
  | signalled
  | dismissed

namespace Deed

/-- The message that a worker was at. -/
def ticket? : Deed → Option Ticket
  | taken ticket _ => some ticket
  | moved move => move.subject?
  | stored ticket _ _ => some ticket
  | _ => none

/-- What happened in the traffic of the deliveries. A message that is taken comes in; when an
offset was stored, something may have been measured. -/
def move? : Deed → Option (Move Ticket)
  | taken ticket m => some (.entered ticket m.intake)
  | moved move => some move
  | stored _ _ _ => some .elapsed
  | _ => none

/-- A move of a delivery is a deed for its message. -/
theorem ticket?_of_move? {deed : Deed} {move : Move Ticket} {k : Ticket}
    (hmove : deed.move? = some move) (hsubject : move.subject? = some k) :
    deed.ticket? = some k := by
  cases deed <;> cases hmove <;> first | exact hsubject | cases hsubject

end Deed

/-- What happened in the traffic of the deliveries, in order. -/
def moves (deeds : List Deed) : List (Move Ticket) := deeds.filterMap Deed.move?

/-- One deed more is one move more in the traffic, or none. -/
theorem moves_snoc (deeds : List Deed) (deed : Deed) :
    moves (deeds ++ [deed]) = moves deeds ++ deed.move?.toList := by
  cases h : deed.move? <;> simp [moves, h]

/-- After a place was to be stored. A failure is only counted. -/
def Shared.stored (done : Bool) (s : Shared) : Shared :=
  if done then s else s.measure fun ledger => ledger.count .offsetStoreErrors

/-- A crew at work: the traffic of its deliveries, its workers, how many messages of each
partition are finished, the message that is to be handed over, whether the service is to stop, and
which workers have looked for that and taken nothing since. -/
structure Shift where
  traffic : Traffic Ticket
  crew : Crew
  finished : Partition → Nat
  calling : Option InputMessage
  stopping : Bool
  looked : Partition → Bool

namespace Shift

/-- The message that the worker of a partition is at, or takes next. -/
def ticket (shift : Shift) (p : Partition) : Ticket := ⟨p, shift.finished p⟩

/-- One step of a crew at work. -/
inductive Step (setting : Setting) (shift : Shift) : Deed → Shift → Prop
  | call (m : InputMessage) (hfree : shift.calling = none)
      (hopen : shift.crew.dismissed = false) :
      Step setting shift (.called m)
        { shift with crew := (shift.crew.hire m.partition).2, calling := some m }
  | handOver {m : InputMessage} {handover : Handover} {crew : Crew}
      (hcalling : shift.calling = some m) (h : shift.crew.handOver m = (handover, crew))
      (hdone : handover ≠ .waiting) :
      Step setting shift (.handed m handover) { shift with crew := crew, calling := none }
  | abandon {m : InputMessage} (hcalling : shift.calling = some m) :
      Step setting shift (.abandoned m) { shift with calling := none }
  | look {p : Partition} {w : Worker} (hgo : shift.stopping = false)
      (hworker : shift.crew.worker? p = some w) (hpresent : w.ended = false)
      (hfree : w.begun = none) :
      Step setting shift (.looked p)
        { shift with looked := Function.update shift.looked p true }
  | take {p : Partition} {w : Worker} {m : InputMessage} {rest : List InputMessage}
      (hlooked : shift.looked p = true) (hworker : shift.crew.worker? p = some w)
      (hpresent : w.ended = false) (hfree : w.begun = none) (hqueue : w.queue = m :: rest) :
      Step setting shift (.taken (shift.ticket p) m)
        { shift with
          traffic := shift.traffic.put (shift.ticket p) ⟨m.intake, .waiting⟩ shift.traffic.shared
          crew := shift.crew.set p { w with begun := some m, queue := rest }
          looked := Function.update shift.looked p false }
  | work {p : Partition} {w : Worker} {m : InputMessage} {intake : Intake}
      {progress progress' : Progress} {move : Move Ticket} {s : Shared}
      (hworker : shift.crew.worker? p = some w) (hbegun : w.begun = some m)
      (hpassage : shift.traffic.passages (shift.ticket p) = some ⟨intake, progress⟩)
      (h : Advance setting (shift.ticket p) intake progress shift.traffic.shared move progress' s) :
      Step setting shift (.moved move)
        { shift with traffic := shift.traffic.put (shift.ticket p) ⟨intake, progress'⟩ s }
  | store {p : Partition} {w : Worker} {m : InputMessage} {outcome : Outcome} (done : Bool)
      (hworker : shift.crew.worker? p = some w) (hbegun : w.begun = some m)
      (hfinished : shift.traffic.outcome? (shift.ticket p) = some outcome) :
      Step setting shift (.stored (shift.ticket p) m.next done)
        { shift with
          traffic := { shift.traffic with shared := shift.traffic.shared.stored done }
          crew := shift.crew.set p { w with begun := none }
          finished := Function.update shift.finished p (shift.finished p + 1) }
  | stop {p : Partition} {w : Worker} (hstopping : shift.stopping = true)
      (hworker : shift.crew.worker? p = some w) (hpresent : w.ended = false)
      (hat : w.begun = none ∨
        ∃ intake, shift.traffic.passages (shift.ticket p) = some ⟨intake, .failed⟩) :
      Step setting shift (.ended p) { shift with crew := shift.crew.set p .gone }
  | drain {p : Partition} {w : Worker} (hlooked : shift.looked p = true)
      (hdismissed : shift.crew.dismissed = true) (hworker : shift.crew.worker? p = some w)
      (hpresent : w.ended = false) (hfree : w.begun = none) (hqueue : w.queue = []) :
      Step setting shift (.ended p) { shift with crew := shift.crew.set p .gone }
  | signal : Step setting shift .signalled { shift with stopping := true }
  | dismiss (hfree : shift.calling = none) :
      Step setting shift .dismissed { shift with crew := shift.crew.dismiss }
  | ambient {s : Shared} (h : Ambient shift.traffic.shared s) :
      Step setting shift (.moved .elapsed)
        { shift with traffic := { shift.traffic with shared := s } }

/-- A crew before its first message: no workers, and a guard without entries. -/
def start (ttl maxEntries queueSize : Nat) (s : Shared) : Shift :=
  ⟨.start ttl maxEntries s, .new queueSize, fun _ => 0, none, false, fun _ => false⟩

/-- A run of a crew at work: its deeds in order, and where they lead. -/
inductive Run (setting : Setting) (first : Shift) : List Deed → Shift → Prop
  | nil : Run setting first [] first
  | snoc {deeds : List Deed} {shift shift' : Shift} {deed : Deed}
      (hrun : Run setting first deeds shift) (hstep : Step setting shift deed shift') :
      Run setting first (deeds ++ [deed]) shift'

section Run

variable {setting : Setting} {first shift shift' : Shift} {deeds deeds' : List Deed} {deed : Deed}

/-- The last deed of a run is a step. -/
theorem Run.of_snoc (h : Run setting first (deeds ++ [deed]) shift') :
    ∃ shift, Run setting first deeds shift ∧ Step setting shift deed shift' := by
  generalize hall : deeds ++ [deed] = all at h
  cases h with
  | nil => simp at hall
  | snoc hrun hstep =>
    obtain ⟨rfl, hlast⟩ := List.append_inj' hall rfl
    cases hlast
    exact ⟨_, hrun, hstep⟩

/-- The first deeds of a run are a run. -/
theorem Run.of_append (h : Run setting first (deeds ++ deeds') shift') :
    ∃ shift, Run setting first deeds shift := by
  induction deeds' using List.reverseRecOn generalizing shift' with
  | nil => exact ⟨shift', by simpa using h⟩
  | append_singleton deeds' deed ih =>
    rw [← List.append_assoc] at h
    obtain ⟨shift, hrun, -⟩ := h.of_snoc
    exact ih hrun

/-- Where a deed stands in a run, it is a step. -/
theorem Run.step_of_mem {before after : List Deed}
    (h : Run setting first (before ++ deed :: after) shift') :
    ∃ shift next, Run setting first before shift ∧ Step setting shift deed next := by
  rw [List.append_cons] at h
  obtain ⟨next, hrun⟩ := h.of_append
  obtain ⟨shift, hbefore, hstep⟩ := hrun.of_snoc
  exact ⟨shift, next, hbefore, hstep⟩

end Run

end Shift

end MarketFeed
