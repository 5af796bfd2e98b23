import MarketFeed.Proofs.Metrics.Growth
import MarketFeed.Proofs.Pipeline.Quote
import MarketFeed.Proofs.Traffic.Dialogue

/-!
# An account of all calls

Each attempt to bring a message to its output is a call. An account notes for each call what the
store replied, which outputs the sink was handed and whether it accepted them, and what the call
answered. It is kept beside the traffic, in which any number of calls are under way at once; what
else happens to the shared state between their steps is open, but for the counters of deliveries.

The ledger never says anything else than the account: a reply is counted when it comes, all the
rest when the call answers.
-/

namespace MarketFeed

/-! ## Calls -/

/-- What is noted of a call: the replies of the store, the outputs that the sink was handed, each
with whether it was accepted, and the answer. That is the outcome, or the output that was not
published. -/
structure Call where
  replies : List LookupAnswer
  handed : List (Output × Bool)
  answer? : Option (Except Output Outcome)

/-- What a step adds to the notes on a call. -/
inductive Remark
  | nothing
  | replied (reply : LookupAnswer)
  | handed (output : Output) (accepted : Bool)
  | answered (answer : Except Output Outcome)

/-- The series that count an output. -/
def Output.counted : Output → List Series
  | tick _ => [.outcomes .emitNormalized]
  | deadLetter letter =>
    (Issue.ofCode? letter.metadata.issue).toList.map (.deadLetters letter.code) ++
      [.outcomes .emitDlq]

/-- The series that count an answer. -/
def countedOfAnswer : Except Output Outcome → List Series
  | .ok (.published output) => output.counted
  | .ok .duplicate => [.outcomes .duplicateDropped]
  | .error output => [.publishErrors output.kind]

/-- The series that count what a step adds. -/
def Remark.counted : Remark → List Series
  | nothing => []
  | replied reply => [.backfillLookups (lookupResult reply)]
  | handed _ _ => []
  | answered answer => countedOfAnswer answer

namespace Call

/-- A call before its first step. -/
def begun : Call := ⟨[], [], none⟩

/-- The call with what a step adds. -/
def add (call : Call) : Remark → Call
  | .nothing => call
  | .replied reply => { call with replies := call.replies ++ [reply] }
  | .handed output accepted => { call with handed := call.handed ++ [(output, accepted)] }
  | .answered answer => { call with answer? := some answer }

/-- The series that count what was noted of a call. -/
def counted (call : Call) : List Series :=
  call.replies.map (fun reply => .backfillLookups (lookupResult reply)) ++
    call.answer?.toList.flatMap countedOfAnswer

/-- What a step adds is counted beside the rest. -/
theorem counted_add {call : Call} (h : call.answer? = none) (remark : Remark) :
    (call.add remark).counted.Perm (call.counted ++ remark.counted) := by
  cases remark with
  | nothing => simp [add, Remark.counted]
  | replied reply => simp [add, counted, Remark.counted, h]
  | handed output accepted => simp [add, counted, Remark.counted]
  | answered answer => simp [add, counted, Remark.counted, h]

end Call

/-! ## What a call comes to -/

/-- The tick has a price that was looked up. -/
def Verdict.isBackfilled : Verdict → Bool
  | tick _ _ _ backfilled => backfilled
  | deadLetter _ => false

/-- The output is a tick that says that its price was looked up. -/
def Output.isFallback : Output → Bool
  | tick t => t.payload.quality.status = .fallback
  | deadLetter _ => false

/-- The store had a usable price. -/
def LookupAnswer.isHit (reply : LookupAnswer) : Bool := lookupResult reply = .hit

/-- A verdict rests on the replies: there is one at most, the verdict has a price from the store
exactly if that was a hit, and its quote is valid. -/
structure Verdict.RestsOn (verdict : Verdict) (replies : List LookupAnswer) : Prop where
  once : replies.length ≤ 1
  hit : verdict.isBackfilled = replies.any LookupAnswer.isHit
  valid : ∀ event quote price backfilled, verdict = .tick event quote price backfilled →
    validate event = .ok quote

/-- The output is a record of the verdict. -/
def Output.Records (output : Output) (verdict : Verdict) : Prop :=
  ∃ (d : Delivery) (s : Shared), output = (d.record s verdict).1

/-- A lookup is a hit exactly if it gives a price. -/
theorem lookupVerdict_isBackfilled (event : RawEvent) (quote : Quote) (reply : LookupAnswer) :
    (lookupVerdict event quote reply).isBackfilled = LookupAnswer.isHit reply := by
  unfold lookupVerdict lookupPrice LookupAnswer.isHit lookupResult
  cases reply with
  | error e => rfl
  | ok latest? =>
    cases latest? with
    | none => rfl
    | some latest => cases husable : latest.usablePrice? <;> simp [husable, Verdict.isBackfilled]

/-- The verdict after a reply rests on it. -/
theorem restsOn_lookupVerdict {event : RawEvent} {quote : Quote}
    (hvalid : validate event = .ok quote) (reply : LookupAnswer) :
    (lookupVerdict event quote reply).RestsOn [reply] := by
  refine ⟨Nat.le_refl 1, by simp [lookupVerdict_isBackfilled], ?_⟩
  intro event' quote' price backfilled hverdict
  unfold lookupVerdict at hverdict
  split at hverdict
  · cases hverdict
    exact hvalid
  · cases hverdict

/-- A verdict that is clear without asking rests on no reply. -/
theorem restsOn_of_check {setting : Setting} {intake : Intake} {started : Instant}
    {s s' : Shared} {verdict : Verdict}
    (h : (setting.delivery intake started).check s = (.settle verdict, s')) :
    verdict.RestsOn [] := by
  have hadmits : (setting.given none).Admits intake verdict := Setting.admits_of_settle h _
  refine ⟨Nat.zero_le 1, ?_, fun event quote price backfilled hverdict => ?_⟩
  · cases hadmits with
    | lookedUp _ _ _ hreply => cases hreply
    | _ => rfl
  · subst hverdict
    exact hadmits.of_tick.2.1

/-- A record says that its price was looked up exactly if the verdict has such a price. -/
theorem Output.Records.isFallback {output : Output} {verdict : Verdict}
    {replies : List LookupAnswer} (h : output.Records verdict) (hrests : verdict.RestsOn replies) :
    output.isFallback = replies.any LookupAnswer.isHit := by
  obtain ⟨d, s, rfl⟩ := h
  rw [← hrests.hit]
  cases verdict with
  | deadLetter error => rfl
  | tick event quote price backfilled =>
    have hmeets := Quote.meets_of_validate (hrests.valid event quote price backfilled rfl)
    have hstatus : (Quality.ofIssues (quote.tickIssues backfilled)).status = .fallback ↔
        backfilled = true := by
      rw [Quality.status_ofIssues, Quote.mem_tickIssues]
      simp [hmeets.notBackfilled]
    apply Bool.eq_iff_iff.mpr
    simpa [Delivery.record, Output.isFallback, Quote.tick, Verdict.isBackfilled] using hstatus

/-- The code of an issue names it. -/
theorem Issue.ofCode?_code (issue : Issue) : Issue.ofCode? issue.code = some issue := by
  cases issue <;> decide

/-- Issues have codes of their own. -/
theorem Issue.code_injective : Function.Injective Issue.code := by
  intro issue issue' h
  have hsome := congrArg Issue.ofCode? h
  rw [Issue.ofCode?_code, Issue.ofCode?_code] at hsome
  exact Option.some.inj hsome

/-- The record of a breach is counted under its code and its issue. -/
theorem Output.Records.counted {output : Output} {error : ContractError}
    (h : output.Records (.deadLetter error)) :
    output.counted = [.deadLetters error.code error.issue, .outcomes .emitDlq] := by
  obtain ⟨d, s, rfl⟩ := h
  simp [Delivery.record, Output.counted, DeadLetter.route, Issue.ofCode?_code]

namespace Delivery

/-- When a message is finished, its outcome is counted. -/
theorem finish_grows {before : Ledger} {counted : List Series} {s : Shared} (d : Delivery)
    (outcome : Outcome) (h : before.GrowsBy s.ledger counted) :
    before.GrowsBy (d.finish outcome s).ledger (counted ++ [.outcomes outcome.state]) :=
  (h.count _).record rfl _

/-- When an output is accepted, it is counted. -/
theorem accept_grows (d : Delivery) {verdict : Verdict} {output : Output}
    (h : output.Records verdict) (s : Shared) :
    s.ledger.GrowsBy (d.accept verdict output s).ledger output.counted := by
  cases verdict with
  | tick event quote price backfilled =>
    obtain ⟨d', s', rfl⟩ := h
    exact d.finish_grows _ (.refl s.ledger)
  | deadLetter error =>
    have hstate : (Outcome.published output).state = .emitDlq := by
      obtain ⟨d', s', rfl⟩ := h
      rfl
    rw [h.counted, ← hstate]
    let counted := s.measure fun ledger => ledger.count (.deadLetters error.code error.issue)
    exact d.finish_grows (s := counted) _ ((Ledger.GrowsBy.refl s.ledger).count _)

end Delivery

/-! ## What is noted in a step -/

/-- One step of a delivery on one attempt, and what it adds to the notes on the call. -/
inductive Telling {ι : Type} (setting : Setting) (i : ι) (intake : Intake) :
    Progress → Shared → Remark → Progress → Shared → Prop
  | quiet {progress progress' : Progress} {s s' : Shared} {move : Move ι}
      (hmove : move = .checked i ∨ move = .committed i intake.id)
      (h : Advance setting i intake progress s move progress' s') :
      Telling setting i intake progress s .nothing progress' s'
  | reply {s s' : Shared} {started since : Instant} {event : RawEvent} {quote : Quote}
      {reply : LookupAnswer} {verdict : Verdict}
      (hreply : setting.replies quote.instrumentId reply)
      (h : (setting.delivery intake started).answer event quote since reply s = (verdict, s')) :
      Telling setting i intake (.asking started event quote since) s (.replied reply)
        (.decided started verdict) s'
  | hand {s : Shared} {started marked : Instant} {verdict : Verdict} {output : Output}
      (accepted : Bool) :
      Telling setting i intake (.sending started verdict output marked) s
        (.handed output accepted) (.answered started verdict output marked accepted) s
  | finish {progress progress' : Progress} {s s' : Shared} {outcome : Outcome}
      (h : Advance setting i intake progress s (.finished i outcome) progress' s') :
      Telling setting i intake progress s (.answered (.ok outcome)) progress' s'
  | withdraw {s : Shared} {started marked : Instant} {verdict : Verdict} {output : Output} :
      Telling setting i intake (.answered started verdict output marked false) s
        (.answered (.error output)) .failed ((setting.delivery intake started).withdraw output s)

/-- Each step of a delivery can be told, unless it begins another attempt. -/
theorem Advance.exists_telling {ι : Type} {setting : Setting} {i : ι} {intake : Intake}
    {progress progress' : Progress} {s s' : Shared} {move : Move ι}
    (h : Advance setting i intake progress s move progress' s') (hmove : move ≠ .retried i) :
    ∃ remark, Telling setting i intake progress s remark progress' s' := by
  cases h with
  | drop h => exact ⟨_, .finish (.drop h)⟩
  | settle h => exact ⟨_, .quiet (.inl rfl) (.settle h)⟩
  | ask h => exact ⟨_, .quiet (.inl rfl) (.ask h)⟩
  | reply hreply h => exact ⟨_, .reply hreply h⟩
  | commit h => exact ⟨_, .quiet (.inr rfl) (.commit h)⟩
  | forgo h => exact ⟨_, .finish (.forgo h)⟩
  | publish => exact ⟨_, .hand true⟩
  | refuse => exact ⟨_, .hand false⟩
  | accept => exact ⟨_, .finish .accept⟩
  | withdraw => exact ⟨_, .withdraw⟩
  | retry => exact absurd rfl hmove

/-- What is told of a delivery that has come so far. -/
def Progress.Tells (setting : Setting) (intake : Intake) (call : Call) : Progress → Prop
  | waiting => call = .begun
  | asking _ event quote _ => call = .begun ∧ setting.Asks intake event quote
  | decided _ verdict => verdict.RestsOn call.replies ∧ call = ⟨call.replies, [], none⟩
  | sending _ verdict output _ => verdict.RestsOn call.replies ∧ output.Records verdict ∧
      call = ⟨call.replies, [], none⟩
  | answered _ verdict output _ accepted => verdict.RestsOn call.replies ∧
      output.Records verdict ∧ call = ⟨call.replies, [(output, accepted)], none⟩
  | published output _ => ∃ verdict : Verdict, verdict.RestsOn call.replies ∧
      output.Records verdict ∧
        call = ⟨call.replies, [(output, true)], some (.ok (.published output))⟩
  | dropped => call.replies.length ≤ 1 ∧ call = ⟨call.replies, [], some (.ok .duplicate)⟩
  | failed => ∃ output, call.replies.length ≤ 1 ∧
      call = ⟨call.replies, [(output, false)], some (.error output)⟩

namespace Telling

variable {ι : Type} {setting : Setting} {i : ι} {intake : Intake} {progress progress' : Progress}
  {s s' : Shared} {remark : Remark} {call : Call}

/-- A step of a delivery is made while its call has not answered. -/
theorem unanswered (h : Telling setting i intake progress s remark progress' s')
    (htells : progress.Tells setting intake call) : call.answer? = none := by
  cases h with
  | quiet hmove h =>
    rcases hmove with rfl | rfl
    · cases h <;> (rw [show call = .begun from htells]; rfl)
    · cases h
      rw [htells.2]
  | reply =>
    rw [htells.1]
    rfl
  | hand => rw [htells.2.2]
  | finish h =>
    cases h with
    | drop =>
      rw [show call = .begun from htells]
      rfl
    | forgo => rw [htells.2]
    | accept => rw [htells.2.2]
  | withdraw => rw [htells.2.2]

/-- What is told of a delivery after a step is what was told before and what the step adds. -/
theorem tells (h : Telling setting i intake progress s remark progress' s')
    (htells : progress.Tells setting intake call) :
    progress'.Tells setting intake (call.add remark) := by
  cases h with
  | quiet hmove h =>
    rcases hmove with rfl | rfl
    · cases h with
      | settle h =>
        obtain rfl : call = .begun := htells
        exact ⟨restsOn_of_check h, rfl⟩
      | ask h => exact ⟨htells, Setting.takes_of_check h⟩
    · cases h with
      | commit h =>
        obtain ⟨hrests, hcall⟩ := htells
        obtain ⟨-, -, -, rfl⟩ := Delivery.of_commit_some h
        exact ⟨hrests, ⟨_, _, rfl⟩, hcall⟩
  | @reply _ _ started since event quote reply verdict _ h =>
    obtain ⟨rfl, hasks⟩ := htells
    obtain rfl : lookupVerdict event quote reply = verdict :=
      (Setting.answer_verdict ..).symm.trans (congrArg Prod.fst h)
    exact ⟨restsOn_lookupVerdict hasks.valid reply, rfl⟩
  | hand accepted =>
    obtain ⟨hrests, hrecords, hcall⟩ := htells
    rw [hcall]
    exact ⟨hrests, hrecords, rfl⟩
  | finish h =>
    cases h with
    | drop h =>
      obtain rfl : call = .begun := htells
      exact ⟨Nat.zero_le 1, rfl⟩
    | forgo h =>
      obtain ⟨hrests, hcall⟩ := htells
      rw [hcall]
      exact ⟨hrests.once, rfl⟩
    | @accept _ _ _ verdict _ =>
      obtain ⟨hrests, hrecords, hcall⟩ := htells
      rw [hcall]
      exact ⟨verdict, hrests, hrecords, rfl⟩
  | @withdraw _ _ _ _ output =>
    obtain ⟨hrests, -, hcall⟩ := htells
    rw [hcall]
    exact ⟨output, hrests.once, rfl⟩

/-- A step of a delivery lets the counters grow by what it adds to the notes. -/
theorem grows (h : Telling setting i intake progress s remark progress' s')
    (htells : progress.Tells setting intake call) :
    s.ledger.GrowsBy s'.ledger remark.counted := by
  cases h with
  | quiet hmove h =>
    refine .of_eq ?_
    rcases hmove with rfl | rfl
    · cases h with
      | settle h => exact Delivery.check_ledger h
      | ask h => exact Delivery.check_ledger h
    · cases h with
      | commit h => exact Delivery.commit_ledger h
  | reply _ h =>
    rw [Delivery.answer_ledger h]
    exact ((Ledger.GrowsBy.refl s.ledger).record rfl _).count _
  | hand => exact .refl _
  | finish h =>
    cases h with
    | drop h => exact Delivery.finish_grows _ .duplicate (.of_eq (Delivery.check_ledger h))
    | forgo h => exact Delivery.finish_grows _ .duplicate (.of_eq (Delivery.commit_ledger h))
    | accept => exact Delivery.accept_grows _ htells.2.1 s
  | withdraw => exact (Ledger.GrowsBy.refl _).count _

end Telling

end MarketFeed
