import MarketFeed.Proofs.Traffic.Audit
import Mathlib.Algebra.BigOperators.Group.List.Basic
import Mathlib.Algebra.BigOperators.Group.Finset.Piecewise
import Mathlib.Data.Fintype.Prod

/-!
# The measurements add up

Whenever all calls have answered, the ledger has grown by just what the account of the calls
says. An outcome is counted for each output that the sink accepted and for each call that found
its id live, at once or on second thoughts. A call that failed counts as a publication error and
as nothing else. Lookups are counted by what they came to, and those that found a price are in
the ticks that say so, but for calls that were dropped or failed afterwards.
-/

namespace MarketFeed

instance : Fintype ErrorCode :=
  .ofList [.validationError, .contractViolation] fun code => by cases code <;> decide

instance : Fintype Issue := .ofList Issue.all fun issue => by cases issue <;> decide

/-! ## Sums over lists -/

/-- Parts that hold equally many make up wholes that hold equally many. -/
theorem countP_flatMap_congr {α β γ : Type} {l : List α} {f : α → List β} {g : α → List γ}
    {p : β → Bool} {q : γ → Bool} (h : ∀ a ∈ l, (f a).countP p = (g a).countP q) :
    (l.flatMap f).countP p = (l.flatMap g).countP q := by
  rw [List.countP_flatMap, List.countP_flatMap]
  exact congrArg List.sum (List.map_congr_left h)

/-- If each part holds one or none, the whole holds as many as there are parts with one. -/
theorem countP_flatMap_eq_countP {α β : Type} {l : List α} {f : α → List β} {p : β → Bool}
    {q : α → Bool} (h : ∀ a ∈ l, (f a).countP p = if q a then 1 else 0) :
    (l.flatMap f).countP p = l.countP q := by
  have hparts : ∀ a ∈ l, (f a).countP p = [a].countP q := by
    intro a ha
    rw [h a ha, List.countP_singleton]
  rw [countP_flatMap_congr hparts, List.flatMap_singleton']

/-! ## Sums over calls -/

/-- The series counts dead letters. -/
def Series.isDeadLetters : Series → Bool
  | deadLetters _ _ => true
  | _ => false

/-- The output is a dead letter with these labels. -/
def Output.isLabelled (code : ErrorCode) (issue : Issue) : Output → Bool
  | tick _ => false
  | deadLetter letter => letter.code = code ∧ letter.metadata.issue = issue.code

namespace Call

/-- All that is not a lookup is counted when the call answers. -/
theorem countP_counted {p : Series → Bool} (h : ∀ result, p (.backfillLookups result) = false)
    (call : Call) :
    call.counted.countP p = (call.answer?.toList.flatMap countedOfAnswer).countP p := by
  have hnone : (call.replies.map fun reply =>
      Series.backfillLookups (lookupResult reply)).countP p = 0 := by
    rw [List.countP_map]
    exact List.countP_eq_zero.mpr fun reply _ => by simp [h]
  rw [counted, List.countP_append, hnone, Nat.zero_add]

/-- No series but those of lookups is counted before the call answers. -/
theorem count_counted {series : Series} (h : ∀ result, series ≠ .backfillLookups result)
    (call : Call) : call.counted.count series =
      (call.answer?.toList.flatMap countedOfAnswer).count series :=
  call.countP_counted fun result => by simpa using (h result).symm

/-- A lookup is counted under what it came to. -/
theorem count_counted_lookups (call : Call) (result : LookupResult) :
    call.counted.count (.backfillLookups result) =
      call.replies.countP fun reply => lookupResult reply = result := by
  have hnone :
      (call.answer?.toList.flatMap countedOfAnswer).count (.backfillLookups result) = 0 := by
    apply List.count_eq_zero.mpr
    intro hmem
    obtain ⟨answer, -, hanswer⟩ := List.mem_flatMap.mp hmem
    cases answer with
    | error output => simp [countedOfAnswer] at hanswer
    | ok outcome =>
      cases outcome with
      | duplicate => simp [countedOfAnswer] at hanswer
      | published output => cases output <;> simp [countedOfAnswer, Output.counted] at hanswer
  rw [counted, List.count_append, hnone, Nat.add_zero, List.count_eq_countP, List.countP_map]
  congr 1
  funext reply
  simp [beq_eq_decide]

namespace Ends

variable {call : Call}

/-- A tick that was accepted is counted as an outcome. -/
theorem count_normalized (h : call.Ends) : call.counted.count (.outcomes .emitNormalized) =
    call.accepted.countP fun output => output.kind = .normalized := by
  rw [count_counted (by simp)]
  cases h <;>
    simp [countedOfAnswer, Output.counted, Call.accepted, Output.kind, *, Issue.ofCode?_code]

/-- A dead letter that was accepted is counted as an outcome. -/
theorem count_deadLettered (h : call.Ends) : call.counted.count (.outcomes .emitDlq) =
    call.accepted.countP fun output => output.kind = .deadLetter := by
  rw [count_counted (by simp)]
  cases h <;>
    simp [countedOfAnswer, Output.counted, Call.accepted, Output.kind, *, Issue.ofCode?_code]

/-- A call that was dropped is counted as an outcome. -/
theorem count_dropped (h : call.Ends) :
    call.counted.count (.outcomes .duplicateDropped) = if call.isDropped then 1 else 0 := by
  rw [count_counted (by simp)]
  cases h <;> simp [countedOfAnswer, Output.counted, isDropped, *, Issue.ofCode?_code]

/-- A dead letter that was accepted is counted under some labels. -/
theorem countP_labelled (h : call.Ends) : call.counted.countP Series.isDeadLetters =
    call.accepted.countP fun output => output.kind = .deadLetter := by
  rw [countP_counted (by simp [Series.isDeadLetters])]
  cases h <;> simp [countedOfAnswer, Output.counted, Call.accepted, Output.kind,
    Series.isDeadLetters, *, Issue.ofCode?_code, List.countP_cons]

/-- A dead letter that was accepted is counted under its labels. -/
theorem count_labelled (h : call.Ends) (code : ErrorCode) (issue : Issue) :
    call.counted.count (.deadLetters code issue) =
      call.accepted.countP (Output.isLabelled code issue) := by
  rw [count_counted (by simp)]
  cases h with
  | deadLetter _ _ found hissue =>
    simp [countedOfAnswer, Output.counted, Call.accepted, Output.isLabelled, hissue,
      Issue.ofCode?_code, List.count_cons, Issue.code_injective.eq_iff]
  | _ => simp [countedOfAnswer, Output.counted, Call.accepted, Output.isLabelled]

/-- A call that failed is counted under its output. -/
theorem count_failed (h : call.Ends) (kind : OutputKind) :
    call.counted.count (.publishErrors kind) = if call.failedOn kind then 1 else 0 := by
  rw [count_counted (by simp)]
  cases h <;> simp [countedOfAnswer, Output.counted, failedOn, *, Issue.ofCode?_code,
    List.count_singleton]

/-- A call has one lookup with a price if it has any. -/
theorem countP_hit (h : call.Ends) :
    (call.replies.countP fun reply => lookupResult reply = .hit) = if call.isHit then 1 else 0 := by
  have honce : call.replies.length ≤ 1 := by cases h <;> assumption
  unfold isHit
  match call.replies, honce with
  | [], _ => rfl
  | [reply], _ => simp [List.countP_singleton, LookupAnswer.isHit]

/-- A call that found a price and was neither dropped nor failed has put out a tick that says so,
and no other has. -/
theorem countP_fallback (h : call.Ends) : call.accepted.countP Output.isFallback =
    if call.isHit && !call.isDropped && !call.isFailed then 1 else 0 := by
  cases h with
  | tick once hfallback => simp [accepted, isHit, isDropped, isFailed, hfallback]
  | deadLetter once hnone => simp [accepted, isHit, isDropped, isFailed, hnone, Output.isFallback]
  | dropped once => simp [accepted, isDropped]
  | failed once => simp [accepted, isFailed]

end Ends

end Call

/-! ## The ledger and the account -/

/-- The counts under all labels make up the count of all dead letters. -/
theorem sum_count_deadLetters (counted : List Series) :
    ∑ label : ErrorCode × Issue, counted.count (.deadLetters label.1 label.2) =
      counted.countP Series.isDeadLetters := by
  induction counted with
  | nil => exact Finset.sum_const_zero
  | cons series rest ih =>
    have hone : ∑ label : ErrorCode × Issue,
        (if series == .deadLetters label.1 label.2 then 1 else 0) =
          if series.isDeadLetters then 1 else 0 := by
      cases series with
      | deadLetters code issue =>
        have hlabel (label : ErrorCode × Issue) :
            (Series.deadLetters code issue == .deadLetters label.1 label.2) = true ↔
              label = (code, issue) := by
          rw [beq_iff_eq, Series.deadLetters.injEq, Prod.ext_iff, eq_comm, eq_comm (a := issue)]
        simp only [hlabel, Finset.sum_ite_eq', Finset.mem_univ, Series.isDeadLetters, if_true]
      | _ => exact Finset.sum_const_zero
    simp only [List.count_cons, List.countP_cons, Finset.sum_add_distrib, ih, hone]

/-- Lookups are counted under what they came to. -/
theorem count_counted_lookups (calls : List Call) (result : LookupResult) :
    (calls.flatMap Call.counted).count (.backfillLookups result) =
      (calls.flatMap Call.replies).countP fun reply => lookupResult reply = result :=
  countP_flatMap_congr fun call _ => call.count_counted_lookups result

/-- Every reply is a hit, a miss or an error. -/
theorem countP_lookupResult (replies : List LookupAnswer) :
    (replies.countP fun reply => lookupResult reply = .hit) +
        (replies.countP fun reply => lookupResult reply = .miss) +
        (replies.countP fun reply => lookupResult reply = .error) = replies.length := by
  induction replies with
  | nil => rfl
  | cons reply rest ih =>
    simp only [List.countP_cons, List.length_cons, ← ih]
    cases lookupResult reply <;> simp <;> omega

/-- What the counters of deliveries read after some calls, against what they read before. -/
structure AddsUp (before after : Ledger) (calls : List Call) : Prop where
  /-- A tick is an outcome once for each tick that the sink accepted. -/
  normalized : after.total (.outcomes .emitNormalized) =
    before.total (.outcomes .emitNormalized) +
      (calls.flatMap Call.accepted).countP fun output => output.kind = .normalized
  /-- A dead letter is an outcome once for each dead letter that the sink accepted. -/
  deadLettered : after.total (.outcomes .emitDlq) = before.total (.outcomes .emitDlq) +
    (calls.flatMap Call.accepted).countP fun output => output.kind = .deadLetter
  /-- A message was dropped once for each call that answered so. -/
  dropped : after.total (.outcomes .duplicateDropped) =
    before.total (.outcomes .duplicateDropped) + calls.countP Call.isDropped
  /-- Under each pair of labels, the accepted dead letters with these labels are counted. -/
  labelled : ∀ code issue, after.total (.deadLetters code issue) =
    before.total (.deadLetters code issue) +
      (calls.flatMap Call.accepted).countP (Output.isLabelled code issue)
  /-- Under all labels together, all accepted dead letters are counted. -/
  labels : ∑ label : ErrorCode × Issue, after.total (.deadLetters label.1 label.2) =
    ∑ label : ErrorCode × Issue, before.total (.deadLetters label.1 label.2) +
      (calls.flatMap Call.accepted).countP fun output => output.kind = .deadLetter
  /-- For each output, the calls that failed on it are counted. -/
  errors : ∀ kind, after.total (.publishErrors kind) =
    before.total (.publishErrors kind) + calls.countP (Call.failedOn kind)
  /-- The three results of a lookup together are counted once for each reply of the store. -/
  lookups : after.total (.backfillLookups .hit) + after.total (.backfillLookups .miss) +
      after.total (.backfillLookups .error) =
    before.total (.backfillLookups .hit) + before.total (.backfillLookups .miss) +
      before.total (.backfillLookups .error) + (calls.flatMap Call.replies).length
  /-- A hit is counted for each call that found a price. -/
  hits : after.total (.backfillLookups .hit) =
    before.total (.backfillLookups .hit) + calls.countP Call.isHit
  /-- The calls that found a price and were neither dropped nor failed are the ticks accepted that
  say that their price was looked up. -/
  fallbacks : (calls.countP fun call => call.isHit && !call.isDropped && !call.isFailed) =
    (calls.flatMap Call.accepted).countP Output.isFallback

/-- If the counters have grown by what the account says, and all calls have ended, they add up. -/
theorem Ledger.GrowsBy.addsUp {before after : Ledger} {calls : List Call}
    (h : before.GrowsBy after (calls.flatMap Call.counted)) (hends : ∀ call ∈ calls, call.Ends) :
    AddsUp before after calls where
  normalized := by
    rw [h _ rfl]
    exact congrArg _ (countP_flatMap_congr fun call hcall => (hends call hcall).count_normalized)
  deadLettered := by
    rw [h _ rfl]
    exact congrArg _ (countP_flatMap_congr fun call hcall => (hends call hcall).count_deadLettered)
  dropped := by
    rw [h _ rfl]
    exact congrArg _ (countP_flatMap_eq_countP fun call hcall => (hends call hcall).count_dropped)
  labelled code issue := by
    rw [h _ rfl]
    exact congrArg _ (countP_flatMap_congr fun call hcall => (hends call hcall).count_labelled ..)
  labels := by
    simp only [h (.deadLetters _ _) rfl, Finset.sum_add_distrib, sum_count_deadLetters]
    exact congrArg _ (countP_flatMap_congr fun call hcall => (hends call hcall).countP_labelled)
  errors kind := by
    rw [h _ rfl]
    exact congrArg _ (countP_flatMap_eq_countP fun call hcall => (hends call hcall).count_failed _)
  lookups := by
    have hlength := countP_lookupResult (calls.flatMap Call.replies)
    rw [h _ rfl, h _ rfl, h _ rfl]
    simp only [count_counted_lookups]
    omega
  hits := by
    rw [h _ rfl, count_counted_lookups]
    exact congrArg _ (countP_flatMap_eq_countP fun call hcall => (hends call hcall).countP_hit)
  fallbacks :=
    (countP_flatMap_eq_countP fun call hcall => (hends call hcall).countP_fallback).symm

namespace Traffic

variable {ι : Type} [DecidableEq ι] {setting : Setting} {s : Shared} {t : Traffic ι}
  {account : Account ι}

/-- Whatever the guard held at the beginning, in whatever order calls began and took their steps,
and whatever the store and the sink answered: when all calls have answered, the counters add up. -/
theorem Audited.measurements_add_up (h : Audited setting s t account)
    (hanswered : ∀ call ∈ account.calls, call.answer? ≠ none) :
    AddsUp s.ledger t.shared.ledger account.calls :=
  h.kept.grows.addsUp fun call hcall => h.kept.ends call hcall (hanswered call hcall)

/-- Four calls: a price is looked up and the tick accepted; a message with the same id is dropped; a
dead letter is refused, and accepted at the second attempt. -/
theorem Audited.measurements_add_up_of_four :
    ∃ (t : Traffic Nat) (account : Account Nat),
      Audited ⟨true, fun _ _ => True⟩ ⟨.new 10 4, 0, 7, 0, [], []⟩ t account ∧
        (∀ call ∈ account.calls, call.answer? ≠ none) ∧
        account.calls.map (fun call => (call.isHit, call.isDropped, call.isFailed)) =
          [(false, false, false), (false, false, true), (false, true, false),
            (true, false, false)] ∧
        AddsUp [] t.shared.ledger account.calls := by
  let reply : LookupAnswer := .ok (some ⟨1, none, none⟩)
  have husable : isUsablePrice 1 = true := by decide +kernel
  have hhit : reply.isHit = true := by
    simp [reply, LookupAnswer.isHit, lookupResult, LatestTick.usablePrice?, husable]
  have hverdict (event : RawEvent) (quote : Quote) :
      lookupVerdict event quote reply = .tick event quote 1 true := by
    simp [reply, lookupVerdict, lookupPrice, LatestTick.usablePrice?, husable]
  have h : Audited ⟨true, fun _ _ => True⟩ ⟨.new 10 4, 0, 7, 0, [], []⟩
      (⟨_, fun _ => none⟩ : Traffic Nat) [] := .start
  have h := h.step (.enter (i := 0) (.event ⟨⟨"e", "t", "1", "x", "p", 5, 5⟩,
    ⟨"feed", "N", "A", 1, 5, some "[null]", some "json", ⟨some " A.N ", 0, []⟩⟩⟩ none) rfl)
  have h := h.step (.advance (i := 0) rfl (.quiet (.inl rfl) (.ask rfl)))
  have h := h.step (.advance (i := 0) rfl (.reply trivial
    (Prod.ext ((Setting.answer_verdict ..).trans (hverdict _ _)) rfl)))
  have h := h.step (.advance (i := 0) rfl (.quiet (.inr rfl) (.commit rfl)))
  have h := h.step (.advance (i := 0) rfl (.hand true))
  have h := h.step (.advance (i := 0) rfl (.finish .accept))
  have h := h.step (.enter (i := 1) (.stray "e" none ⟨"in", 0, 6⟩ "not an object") rfl)
  have h := h.step (.advance (i := 1) rfl (.finish (.drop rfl)))
  have h := h.step (.enter (i := 2) (.stray "s" none ⟨"in", 0, 7⟩ "not an object") rfl)
  have h := h.step (.advance (i := 2) rfl (.quiet (.inl rfl) (.settle rfl)))
  have h := h.step (.advance (i := 2) rfl (.quiet (.inr rfl) (.commit rfl)))
  have h := h.step (.advance (i := 2) rfl (.hand false))
  have h := h.step (.advance (i := 2) rfl .withdraw)
  have h := h.step (.retry (i := 2) rfl)
  have h := h.step (.advance (i := 2) rfl (.quiet (.inl rfl) (.settle rfl)))
  have h := h.step (.advance (i := 2) rfl (.quiet (.inr rfl) (.commit rfl)))
  have h := h.step (.advance (i := 2) rfl (.hand true))
  have h := h.step (.advance (i := 2) rfl (.finish .accept))
  refine ⟨_, _, h, ?answered, ?calls, h.measurements_add_up ?answered⟩
  case answered =>
    iterate 4 refine List.forall_mem_cons.mpr ⟨nofun, ?_⟩
    exact List.forall_mem_nil _
  case calls =>
    change [(false, false, false), (false, false, true), (false, true, false),
      (reply.isHit || false, false, false)] = _
    rw [hhit]
    rfl

end Traffic

end MarketFeed
