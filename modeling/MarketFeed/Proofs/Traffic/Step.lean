import MarketFeed.Proofs.Guard.Entries
import MarketFeed.Proofs.Pipeline.Verdict
import Mathlib.Logic.Function.Basic

/-!
# Concurrent deliveries, step by step

Any number of deliveries share one state. Each goes through its steps in order, and between
two of them the others may go through theirs, the guard may be swept, and time may pass. The
steps are those of an uninterrupted delivery; only their order is open.

An output is handed to the sink right after the id was marked. The sink accepts or refuses it
at some later instant, and later still the call returns and the delivery goes on: it counts
an accepted output, or withdraws the mark of a refused one.
-/

namespace MarketFeed

/-- How far a delivery has come. -/
inductive Progress
  /-- It has not begun, or is to begin anew. -/
  | waiting
  /-- The store was asked for a price. -/
  | asking (started : Instant) (event : RawEvent) (quote : Quote) (since : Instant)
  /-- It is clear what to put out, but the id is not marked. -/
  | decided (started : Instant) (verdict : Verdict)
  /-- The id is marked, and the sink has the output. -/
  | sending (started : Instant) (verdict : Verdict) (output : Output) (marked : Instant)
  /-- The sink has accepted or refused the output, which the delivery does not know yet. -/
  | answered (started : Instant) (verdict : Verdict) (output : Output) (marked : Instant)
    (accepted : Bool)
  /-- The output was refused and the mark withdrawn. -/
  | failed
  /-- The output is out. -/
  | published (output : Output) (marked : Instant)
  /-- The id was found live, and nothing was put out. -/
  | dropped

namespace Progress

/-- The instant of the mark that the delivery has set and not withdrawn. -/
def mark? : Progress → Option Instant
  | sending _ _ _ marked => some marked
  | answered _ _ _ marked _ => some marked
  | published _ marked => some marked
  | _ => none

/-- The output that the sink has accepted, and the instant of its mark. -/
def accepted? : Progress → Option (Output × Instant)
  | answered _ _ output marked true => some (output, marked)
  | published output marked => some (output, marked)
  | _ => none

/-- An accepted output has its mark. -/
theorem mark?_of_accepted? {progress : Progress} {output : Output} {marked : Instant}
    (h : progress.accepted? = some (output, marked)) : progress.mark? = some marked := by
  cases progress with
  | answered _ _ _ _ accepted => cases accepted <;> simp_all [accepted?, mark?]
  | published => simp_all [accepted?, mark?]
  | _ => cases h

/-- What the message came to, if the delivery has finished. -/
def outcome? : Progress → Option Outcome
  | published output _ => some (.published output)
  | dropped => some .duplicate
  | _ => none

/-- A delivery that has published has had its output accepted. -/
theorem accepted?_of_outcome? {progress : Progress} {output : Output}
    (h : progress.outcome? = some (.published output)) :
    ∃ marked, progress.accepted? = some (output, marked) := by
  cases progress with
  | published => simp_all [outcome?, accepted?]
  | _ => simp [outcome?] at h

/-- A delivery that holds a mark was not dropped. -/
theorem outcome?_of_mark? {progress : Progress} {marked : Instant}
    (h : progress.mark? = some marked) : progress.outcome? ≠ some .duplicate := by
  cases progress with
  | dropped => cases h
  | _ => simp [outcome?]

end Progress

/-- A delivery on its way: what its message is taken for, and how far it has come. -/
structure Passage where
  intake : Intake
  progress : Progress

/-- What happens in one step, where `ι` names the deliveries. -/
inductive Move (ι : Type)
  | entered (i : ι) (intake : Intake)
  | checked (i : ι)
  | replied (i : ι)
  | committed (i : ι) (id : String)
  | published (i : ι) (output : Output) (marked : Instant)
  | refused (i : ι)
  | withdrawn (i : ι) (marked now : Instant)
  | retried (i : ι)
  | finished (i : ι) (outcome : Outcome)
  /-- No delivery moved: the guard was swept, time passed, or something was measured. -/
  | elapsed

/-- The delivery that moved. -/
def Move.subject? {ι : Type} : Move ι → Option ι
  | entered i _ => some i
  | checked i => some i
  | replied i => some i
  | committed i _ => some i
  | published i _ _ => some i
  | refused i => some i
  | withdrawn i _ _ => some i
  | retried i => some i
  | finished i _ => some i
  | elapsed => none

/-- The delivery whose output the sink has accepted or refused by a step. -/
def Move.answered? {ι : Type} : Move ι → Option ι
  | published i _ _ => some i
  | refused i => some i
  | _ => none

/-- One step of a delivery: how far it comes by it, and what becomes of the shared state. -/
inductive Advance {ι : Type} (setting : Setting) (i : ι) (intake : Intake) :
    Progress → Shared → Move ι → Progress → Shared → Prop
  | drop {s s' : Shared} (h : (setting.delivery intake s.instant).check s = (.drop, s')) :
      Advance setting i intake .waiting s (.finished i .duplicate) .dropped
        ((setting.delivery intake s.instant).finish .duplicate s')
  | settle {s s' : Shared} {verdict : Verdict}
      (h : (setting.delivery intake s.instant).check s = (.settle verdict, s')) :
      Advance setting i intake .waiting s (.checked i) (.decided s.instant verdict) s'
  | ask {s s' : Shared} {event : RawEvent} {quote : Quote} {since : Instant}
      (h : (setting.delivery intake s.instant).check s = (.ask event quote since, s')) :
      Advance setting i intake .waiting s (.checked i) (.asking s.instant event quote since) s'
  | reply {s s' : Shared} {started since : Instant} {event : RawEvent} {quote : Quote}
      {reply : LookupAnswer} {verdict : Verdict}
      (hreply : setting.replies quote.instrumentId reply)
      (h : (setting.delivery intake started).answer event quote since reply s = (verdict, s')) :
      Advance setting i intake (.asking started event quote since) s (.replied i)
        (.decided started verdict) s'
  | commit {s s' : Shared} {started : Instant} {verdict : Verdict} {output : Output}
      (h : (setting.delivery intake started).commit verdict s = (some output, s')) :
      Advance setting i intake (.decided started verdict) s (.committed i intake.id)
        (.sending started verdict output s.instant) s'
  | forgo {s s' : Shared} {started : Instant} {verdict : Verdict}
      (h : (setting.delivery intake started).commit verdict s = (none, s')) :
      Advance setting i intake (.decided started verdict) s (.finished i .duplicate) .dropped
        ((setting.delivery intake started).finish .duplicate s')
  | publish {s : Shared} {started marked : Instant} {verdict : Verdict} {output : Output} :
      Advance setting i intake (.sending started verdict output marked) s
        (.published i output marked) (.answered started verdict output marked true) s
  | refuse {s : Shared} {started marked : Instant} {verdict : Verdict} {output : Output} :
      Advance setting i intake (.sending started verdict output marked) s
        (.refused i) (.answered started verdict output marked false) s
  | accept {s : Shared} {started marked : Instant} {verdict : Verdict} {output : Output} :
      Advance setting i intake (.answered started verdict output marked true) s
        (.finished i (.published output)) (.published output marked)
        ((setting.delivery intake started).accept verdict output s)
  | withdraw {s : Shared} {started marked : Instant} {verdict : Verdict} {output : Output} :
      Advance setting i intake (.answered started verdict output marked false) s
        (.withdrawn i marked s.instant) .failed
        ((setting.delivery intake started).withdraw output s)
  | retry {s : Shared} :
      Advance setting i intake .failed s (.retried i) .waiting s

/-- What happens to the shared state while no delivery moves. The monotonic clock never goes
back; the wall clock may be set. -/
inductive Ambient (s : Shared) : Shared → Prop
  | sweep : Ambient s s.sweep.2
  | elapse (instant : Instant) (wall : Int64) (h : s.instant ≤ instant) :
      Ambient s { s with instant := instant, wall := wall }
  | measure (change : Ledger → Ledger) : Ambient s (s.measure change)

/-- All deliveries so far, and what they share. -/
structure Traffic (ι : Type) where
  shared : Shared
  passages : ι → Option Passage

namespace Traffic

variable {ι : Type} [DecidableEq ι] {setting : Setting}

/-- A delivery has come so far. -/
def put (t : Traffic ι) (i : ι) (passage : Passage) (s : Shared) : Traffic ι :=
  ⟨s, Function.update t.passages i (some passage)⟩

/-- Where a delivery has come to replaces where it was. -/
@[simp] theorem put_put (t : Traffic ι) (i : ι) (passage passage' : Passage) (s s' : Shared) :
    (t.put i passage s).put i passage' s' = t.put i passage' s' := by
  simp [put]

/-- One step of the traffic: a message comes in, a delivery goes on, or neither. -/
inductive Step (setting : Setting) (t : Traffic ι) : Move ι → Traffic ι → Prop
  | enter {i : ι} (intake : Intake) (hnew : t.passages i = none) :
      Step setting t (.entered i intake) (t.put i ⟨intake, .waiting⟩ t.shared)
  | advance {i : ι} {intake : Intake} {progress progress' : Progress} {move : Move ι} {s : Shared}
      (hpassage : t.passages i = some ⟨intake, progress⟩)
      (h : Advance setting i intake progress t.shared move progress' s) :
      Step setting t move (t.put i ⟨intake, progress'⟩ s)
  | ambient {s : Shared} (h : Ambient t.shared s) : Step setting t .elapsed { t with shared := s }

/-- The traffic before any delivery: the guard has its limits and no entries. -/
def start (ttl maxEntries : Nat) (s : Shared) : Traffic ι :=
  ⟨{ s with guard := Guard.new ttl maxEntries }, fun _ => none⟩

/-- A run of the traffic: its moves in order, and where they lead. -/
inductive Run (setting : Setting) (t₀ : Traffic ι) : List (Move ι) → Traffic ι → Prop
  | nil : Run setting t₀ [] t₀
  | snoc {moves : List (Move ι)} {t t' : Traffic ι} {move : Move ι}
      (hrun : Run setting t₀ moves t) (hstep : Step setting t move t') :
      Run setting t₀ (moves ++ [move]) t'

/-- A run goes on after a run. -/
theorem Run.append {t₀ t t' : Traffic ι} {moves moves' : List (Move ι)}
    (h : Run setting t₀ moves t) (h' : Run setting t moves' t') :
    Run setting t₀ (moves ++ moves') t' := by
  induction h' with
  | nil => simpa using h
  | snoc _ hstep ih =>
    rw [← List.append_assoc]
    exact ih.snoc hstep

end Traffic

end MarketFeed
