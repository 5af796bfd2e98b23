import MarketFeed.Proofs.Message.Requests

/-!
# The states that are logged on the way of an event

The specification draws the states of an event as a machine: an event is parsed, its fields are
checked, a missing price is looked up, and each of these may end in a breach of the schema or of the
contract, which is a state of its own. Every way then leads to the commit, and from there to the
one end that fits it.

What is logged follows this machine as long as the contract is kept. A breach of the contract is
logged differently in three places. If the validation finds it, the check of the fields is left out;
and if there is no price, be it that none is looked up or that none is found, the breach itself is.
-/

namespace MarketFeed

namespace ProcessingState

/-! ## Machines over the states -/

/-- A machine over the states: which ones may follow a state that was reached from another. -/
abbrev Machine := ProcessingState → ProcessingState → List ProcessingState

/-- The machine of the specification. From the commit, the end must fit the state before it. -/
def documented (came : ProcessingState) : ProcessingState → List ProcessingState
  | received => [parsing, duplicateDropped]
  | parsing => [schemaInvalid, fieldCheck]
  | fieldCheck => [contractViolation, backfillLookup, ready]
  | backfillLookup => [fallbackApplied, contractViolation]
  | schemaInvalid | contractViolation | ready | fallbackApplied => [dedupCheck]
  | dedupCheck =>
    match came with
    | ready | fallbackApplied => [emitNormalized, duplicateDropped]
    | schemaInvalid | contractViolation => [emitDlq, duplicateDropped]
    | _ => [duplicateDropped]
  | emitNormalized | emitDlq | duplicateDropped => []

/-- The machine that the log follows. A violation of the contract comes right after parsing or is
not logged at all. -/
def logged (came : ProcessingState) : ProcessingState → List ProcessingState
  | parsing => [schemaInvalid, contractViolation, fieldCheck]
  | fieldCheck => [dedupCheck, backfillLookup, ready]
  | backfillLookup => [fallbackApplied, dedupCheck]
  | dedupCheck =>
    match came with
    | fieldCheck | backfillLookup => [emitDlq, duplicateDropped]
    | _ => documented came dedupCheck
  | state => documented came state

/-- Each state of a list may follow the one before it. -/
def Follows (machine : Machine) : ProcessingState → ProcessingState → List ProcessingState → Prop
  | _, _, [] => True
  | came, state, later :: rest => later ∈ machine came state ∧ Follows machine state later rest

/-- The states are a path of a machine, from the first state on. -/
def IsPath (machine : Machine) (states : List ProcessingState) : Prop :=
  states.head? = some received ∧ Follows machine received received states.tail

instance decidableFollows (machine : Machine) :
    ∀ came state rest, Decidable (Follows machine came state rest)
  | _, _, [] => inferInstanceAs (Decidable True)
  | came, state, later :: rest =>
    have := decidableFollows machine state later rest
    inferInstanceAs (Decidable (later ∈ machine came state ∧ Follows machine state later rest))

instance (machine : Machine) (states : List ProcessingState) :
    Decidable (IsPath machine states) :=
  inferInstanceAs (Decidable
    (states.head? = some received ∧ Follows machine received received states.tail))

end ProcessingState

open ProcessingState

/-- The state that a delivery ends with, if it does not fail. -/
def ending : Except PublishError Outcome → List ProcessingState
  | .ok outcome => [outcome.state]
  | .error _ => []

/-- The state of what is put out for a verdict. -/
def Verdict.state : Verdict → ProcessingState
  | tick .. => .emitNormalized
  | deadLetter _ => .emitDlq

/-- The verdict is that the contract is violated. -/
def Verdict.Violates (verdict : Verdict) : Prop :=
  ∃ issue detail, verdict = .deadLetter (.violation issue detail)

/-- The verdict that a delivery brings to the commit, if its id is not live at the check. -/
def Delivery.verdict? {σ : Type} (d : Delivery) (around : Surroundings σ) (s : Shared) (x : σ) :
    Option Verdict :=
  match d.check s with
  | (.drop, _) => none
  | (.settle verdict, _) => some verdict
  | (.ask event quote _, s) =>
    some (lookupVerdict event quote (around.lookup quote.instrumentId s x).1)

/-! ## What a delivery logs itself -/

/-- The same shared state with another log. -/
def Shared.withTrail (s : Shared) (trail : List (String × ProcessingState)) : Shared :=
  { s with trail := trail }

/-- The same result with another log. -/
def relogged {σ : Type} (done : Except PublishError Outcome × Shared × σ)
    (trail : List (String × ProcessingState)) : Except PublishError Outcome × Shared × σ :=
  (done.1, done.2.1.withTrail trail, done.2.2)

/-- The same surroundings, except that nothing is logged while the store is asked. What is in the
log then is what the delivery has logged itself. -/
def Surroundings.quiet {σ : Type} (around : Surroundings σ) : Surroundings σ :=
  { around with
    lookup := fun id s x =>
      let (reply, s', y) := around.lookup id s x
      (reply, s'.withTrail s.trail, y) }

variable {σ : Type} {around : Surroundings σ} {d : Delivery} {s : Shared} {x : σ}

/-- The states that an event has logged when its verdict is clear. -/
inductive Verdict.Reached : Verdict → List ProcessingState → Prop
  | malformed (detail : String) :
      Reached (.deadLetter (.schema detail)) [.received, .parsing, .schemaInvalid]
  | refused (issue : Issue) (detail : String) :
      Reached (.deadLetter (.violation issue detail)) [.received, .parsing, .contractViolation]
  | priced (event : RawEvent) (quote : Quote) (price : Float) :
      Reached (.tick event quote price false) [.received, .parsing, .fieldCheck, .ready]
  | unpriced (issue : Issue) (detail : String) :
      Reached (.deadLetter (.violation issue detail)) [.received, .parsing, .fieldCheck]
  | filled (event : RawEvent) (quote : Quote) (price : Float) :
      Reached (.tick event quote price true)
        [.received, .parsing, .fieldCheck, .backfillLookup, .fallbackApplied]
  | unfilled (issue : Issue) (detail : String) :
      Reached (.deadLetter (.violation issue detail))
        [.received, .parsing, .fieldCheck, .backfillLookup]

/-- The states that an event has logged when it takes a course. -/
def Delivery.Course.Reached : Delivery.Course → List ProcessingState → Prop
  | .drop, states => states = [.received]
  | .settle verdict, states => verdict.Reached states
  | .ask .., states => states = [.received, .parsing, .fieldCheck, .backfillLookup]

/-- The entries of the log for the states of an id. -/
def entriesOf (id : String) (states : List ProcessingState) : List (String × ProcessingState) :=
  states.map fun state => (id, state)

/-- A state with the log that it has. -/
theorem Shared.withTrail_self {trail : List (String × ProcessingState)} (h : s.trail = trail) :
    s.withTrail trail = s := h ▸ rfl

/-- A lookup that finds no price amounts to a violation of the contract. -/
theorem violates_of_lookupPrice {instrumentId : String} {reply : LookupAnswer}
    {error : ContractError} (h : lookupPrice instrumentId reply = .error error) :
    ∃ issue detail, error = .violation issue detail := by
  unfold lookupPrice at h
  split at h
  · split at h
    · cases h
    · exact ⟨_, _, (Except.error.inj h).symm⟩
  · exact ⟨_, _, (Except.error.inj h).symm⟩
  · exact ⟨_, _, (Except.error.inj h).symm⟩

namespace Delivery

/-- The states that are logged until an event takes its course. -/
theorem check_logs {event : RawEvent} {source : Option Coordinates}
    (hevent : d.intake = .event event source) (s : Shared) :
    ∃ states, (d.check s).1.Reached states ∧
      (d.check s).2.trail = s.trail ++ entriesOf d.id states := by
  unfold check
  rw [hevent]
  cases hseen : (s.trace d.id .received).seen d.id with
  | mk live s₁ =>
    have htrail : s₁.trail = s.trail ++ [(d.id, .received)] :=
      congrArg (fun answer => answer.2.trail) hseen.symm
    cases live with
    | true => exact ⟨_, rfl, htrail⟩
    | false =>
      dsimp only
      unfold assess
      dsimp only
      cases validate event with
      | error error =>
        cases error with
        | schema detail =>
          exact ⟨_, .malformed detail, by simp [Shared.trace, htrail, entriesOf, breachState]⟩
        | violation issue detail =>
          exact ⟨_, .refused issue detail, by simp [Shared.trace, htrail, entriesOf, breachState]⟩
      | ok quote =>
        dsimp only
        cases quote.price with
        | some price =>
          exact ⟨_, .priced event quote price, by simp [Shared.trace, htrail, entriesOf]⟩
        | none =>
          dsimp only
          split
          · exact ⟨_, rfl, by simp [Shared.trace, htrail, entriesOf]⟩
          · exact ⟨_, .unpriced _ _, by simp [Shared.trace, htrail, entriesOf]⟩

/-- The states that are logged when the store has replied. -/
theorem answer_logs (d : Delivery) (event : RawEvent) (quote : Quote) (since : Instant)
    (reply : LookupAnswer) (s : Shared) (trail : List (String × ProcessingState)) :
    ∃ states, (lookupVerdict event quote reply).Reached
        ([.received, .parsing, .fieldCheck, .backfillLookup] ++ states) ∧
      (d.answer event quote since reply (s.withTrail trail)).2 =
        (d.answer event quote since reply s).2.withTrail (trail ++ entriesOf d.id states) := by
  unfold answer lookupVerdict
  dsimp only
  cases hprice : lookupPrice quote.instrumentId reply with
  | ok price => exact ⟨[.fallbackApplied], .filled event quote price, rfl⟩
  | error error =>
    obtain ⟨issue, detail, rfl⟩ := violates_of_lookupPrice hprice
    exact ⟨[], .unfilled issue detail, by simp [entriesOf, Shared.withTrail, Shared.measure]⟩

/-- The commit is logged, and nothing after it. -/
theorem emit_logs (d : Delivery) (around : Surroundings σ) (verdict : Verdict) (s : Shared) (x : σ)
    (trail : List (String × ProcessingState)) :
    d.emit around verdict (s.withTrail trail) x =
      relogged (d.emit around verdict s x) (trail ++ entriesOf d.id [.dedupCheck]) := by
  unfold relogged emit commit Shared.tryMark Shared.trace Shared.withTrail
  dsimp only
  rcases s.guard.tryMark s.instant d.id with ⟨_ | _, g⟩
  · rfl
  · dsimp only
    cases verdict with
    | tick event quote price backfilled =>
      dsimp only [record]
      rcases around.publish _ x with ⟨_ | _, y⟩ <;> rfl
    | deadLetter error =>
      dsimp only [record]
      rcases around.publish _ x with ⟨_ | _, y⟩ <;> rfl

/-- A delivery that was committed ends with its verdict, as a duplicate, or not at all. -/
theorem ending_emit (d : Delivery) (around : Surroundings σ) (verdict : Verdict) (s : Shared)
    (x : σ) :
    ending (d.emit around verdict s x).1 ∈ [[verdict.state], [.duplicateDropped], []] := by
  unfold emit
  rcases hcommit : d.commit verdict s with ⟨_ | output, s'⟩
  · simp [ending, Outcome.state]
  · have houtput := (of_commit_some hcommit).2.2.2
    have hstate : (Outcome.published output).state = verdict.state := by
      rw [houtput]
      cases verdict <;> rfl
    dsimp only
    rcases around.publish output x with ⟨_ | _, y⟩ <;> simp [ending, hstate]

end Delivery

/-! ## The log of an event is a path -/

/-- The ways on which the contract is kept lead through the commit to their ends, in both
machines. -/
theorem isPath_of_kept :
    ∀ way ∈ [([received, parsing, schemaInvalid], emitDlq),
        ([received, parsing, fieldCheck, ready], emitNormalized),
        ([received, parsing, fieldCheck, backfillLookup, fallbackApplied], emitNormalized)],
      ∀ final ∈ [[way.2], [duplicateDropped], []],
        IsPath logged (way.1 ++ [dedupCheck] ++ final) ∧
          IsPath documented (way.1 ++ [dedupCheck] ++ final) := by
  decide

/-- The ways to a violation of the contract lead through the commit to a dead letter as the log has
it, and not as the specification has it. -/
theorem isPath_of_violated :
    ∀ way ∈ [[received, parsing, contractViolation], [received, parsing, fieldCheck],
        [received, parsing, fieldCheck, backfillLookup]],
      ∀ final ∈ [[emitDlq], [duplicateDropped], []],
        IsPath logged (way ++ [dedupCheck] ++ final) ∧
          ¬ IsPath documented (way ++ [dedupCheck] ++ final) := by
  decide

/-- Each way to a verdict leads through the commit to its end, as the log has it; and as the
specification has it unless the contract is violated. -/
theorem Verdict.Reached.isPath {verdict : Verdict} {states final : List ProcessingState}
    (h : verdict.Reached states)
    (hfinal : final ∈ [[verdict.state], [.duplicateDropped], []]) :
    IsPath logged (states ++ [.dedupCheck] ++ final) ∧
      (IsPath documented (states ++ [.dedupCheck] ++ final) ↔ ¬ verdict.Violates) := by
  cases h with
  | malformed detail =>
    obtain ⟨hlogged, hdocumented⟩ :=
      isPath_of_kept ([received, parsing, schemaInvalid], emitDlq) (by decide) final hfinal
    exact ⟨hlogged, iff_of_true hdocumented nofun⟩
  | priced event quote price =>
    obtain ⟨hlogged, hdocumented⟩ :=
      isPath_of_kept ([received, parsing, fieldCheck, ready], emitNormalized) (by decide) final
        hfinal
    exact ⟨hlogged, iff_of_true hdocumented nofun⟩
  | filled event quote price =>
    obtain ⟨hlogged, hdocumented⟩ :=
      isPath_of_kept ([received, parsing, fieldCheck, backfillLookup, fallbackApplied],
        emitNormalized) (by decide) final hfinal
    exact ⟨hlogged, iff_of_true hdocumented nofun⟩
  | refused issue detail =>
    obtain ⟨hlogged, hdocumented⟩ :=
      isPath_of_violated [received, parsing, contractViolation] (by decide) final hfinal
    exact ⟨hlogged, iff_of_false hdocumented (not_not_intro ⟨issue, detail, rfl⟩)⟩
  | unpriced issue detail =>
    obtain ⟨hlogged, hdocumented⟩ :=
      isPath_of_violated [received, parsing, fieldCheck] (by decide) final hfinal
    exact ⟨hlogged, iff_of_false hdocumented (not_not_intro ⟨issue, detail, rfl⟩)⟩
  | unfilled issue detail =>
    obtain ⟨hlogged, hdocumented⟩ :=
      isPath_of_violated [received, parsing, fieldCheck, backfillLookup] (by decide) final hfinal
    exact ⟨hlogged, iff_of_false hdocumented (not_not_intro ⟨issue, detail, rfl⟩)⟩

/-- A delivery of an event logs that it was received, and is a duplicate; or it logs what is on the
way to a verdict, and the commit, and ends with the verdict, as a duplicate or not at all. -/
theorem Delivery.run_logs {event : RawEvent} {source : Option Coordinates}
    (hevent : d.intake = .event event source) (around : Surroundings σ) (s : Shared) (x : σ) :
    (d.verdict? around s x = none ∧ (d.run around s x).1 = .ok .duplicate ∧
        d.run around.quiet s x =
          relogged (d.run around s x) (s.trail ++ entriesOf d.id [.received])) ∨
      ∃ verdict states, d.verdict? around s x = some verdict ∧ verdict.Reached states ∧
        ending (d.run around s x).1 ∈ [[verdict.state], [.duplicateDropped], []] ∧
        d.run around.quiet s x =
          relogged (d.run around s x) (s.trail ++ entriesOf d.id (states ++ [.dedupCheck])) := by
  obtain ⟨states, hreached, htrail⟩ := check_logs hevent s
  rcases hcheck : d.check s with ⟨course, s₁⟩
  rw [hcheck] at hreached htrail
  dsimp only at hreached htrail
  unfold verdict?
  rw [hcheck]
  cases course with
  | drop =>
    obtain rfl : states = [.received] := hreached
    have hsame : (d.finish .duplicate s₁).withTrail (s.trail ++ entriesOf d.id [.received]) =
        d.finish .duplicate s₁ := Shared.withTrail_self htrail
    refine .inl ⟨rfl, by rw [run_of_drop hcheck], ?_⟩
    rw [run_of_drop hcheck, run_of_drop hcheck, relogged, hsame]
  | settle verdict =>
    have hemit := emit_logs d around verdict s₁ x (s.trail ++ entriesOf d.id states)
    rw [Shared.withTrail_self htrail, List.append_assoc] at hemit
    refine .inr ⟨verdict, states, rfl, hreached, ?_, ?_⟩
    · rw [run_of_settle hcheck]
      exact ending_emit d around verdict s₁ x
    · rw [run_of_settle hcheck, run_of_settle hcheck, entriesOf, List.map_append]
      exact hemit
  | ask asked quote since =>
    obtain rfl : states = [.received, .parsing, .fieldCheck, .backfillLookup] := hreached
    rcases hlookup : around.lookup quote.instrumentId s₁ x with ⟨reply, s₂, y⟩
    have hquiet : around.quiet.lookup quote.instrumentId s₁ x =
        (reply, s₂.withTrail s₁.trail, y) := by simp [Surroundings.quiet, hlookup]
    obtain ⟨later, hlater, hanswer⟩ := answer_logs d asked quote since reply s₂ s₁.trail
    have hemit := emit_logs d around (lookupVerdict asked quote reply)
      (d.answer asked quote since reply s₂).2 y (s₁.trail ++ entriesOf d.id later)
    refine .inr ⟨lookupVerdict asked quote reply, _, by dsimp only; rw [hlookup], hlater, ?_, ?_⟩
    · rw [run_of_ask hcheck, hlookup]
      exact ending_emit ..
    · rw [run_of_ask hcheck, run_of_ask hcheck, hlookup, hquiet, hanswer]
      refine hemit.trans (congrArg (relogged _) ?_)
      simp [htrail, entriesOf]

/-- The states that processing an event logs, with the one that it ends with, are a path of the
machine that the log follows, from the first state through the commit to the end. They are a path of
the machine of the specification exactly if the event does not come to the verdict that the
contract is violated. -/
theorem process_logs (around : Surroundings σ) (event : RawEvent) (source : Option Coordinates)
    (s : Shared) (x : σ) :
    let d : Delivery := ⟨.event event source, around.backfills, s.instant⟩
    let done := process around (.event event source) s x
    ∃ states,
      process around.quiet (.event event source) s x =
        relogged done (s.trail ++ entriesOf event.id states) ∧
      IsPath logged (states ++ ending done.1) ∧
      (IsPath documented (states ++ ending done.1) ↔
        ∀ verdict, d.verdict? around s x = some verdict → ¬ verdict.Violates) ∧
      (ending done.1 = [] → states.getLast? = some .dedupCheck) := by
  intro d done
  rcases Delivery.run_logs (d := d) rfl around s x with
    ⟨hnone, hduplicate, hquiet⟩ | ⟨verdict, states, hverdict, hreached, hfinal, hquiet⟩
  · have hdone : done.1 = .ok .duplicate := hduplicate
    refine ⟨[.received], hquiet, ?_⟩
    rw [hdone, hnone]
    exact ⟨by decide, iff_of_true (by decide) nofun, nofun⟩
  · obtain ⟨hlogged, hdocumented⟩ := hreached.isPath hfinal
    refine ⟨states ++ [dedupCheck], hquiet, hlogged, hdocumented.trans ?_, fun _ => by simp⟩
    rw [hverdict]
    simp

/-- Three events that violate the contract leave the machine of the specification. One has no
symbol, and its violation follows right after parsing. The others have no price: none is looked up
for the one, and the store knows none for the other, and no violation is logged for them. -/
theorem violations_leave_documented :
    let s : Shared := ⟨.new 10 2, 0, 0, 0, [], []⟩
    let around (backfills : Bool) : Surroundings Unit :=
      ⟨backfills, fun _ s x => (.ok none, s, x), fun _ x => (.ok (), x)⟩
    let event (symbol : String) : RawEvent :=
      ⟨⟨"e", "t", "1", "x", "p", 0, 0⟩,
        ⟨"s", "m", symbol, 1, 0, some "[null,null,null,null]", some "json", ⟨some "i", 0, []⟩⟩⟩
    let states (backfills : Bool) (symbol : String) : List ProcessingState :=
      let done := process (around backfills) (.event (event symbol) none) s ()
      done.2.1.trail.map Prod.snd ++ ending done.1
    states false "" = [received, parsing, contractViolation, dedupCheck, emitDlq] ∧
      ¬ IsPath documented (states false "") ∧
      states false "y" = [received, parsing, fieldCheck, dedupCheck, emitDlq] ∧
      ¬ IsPath documented (states false "y") ∧
      states true "y" = [received, parsing, fieldCheck, backfillLookup, dedupCheck, emitDlq] ∧
      ¬ IsPath documented (states true "y") := by
  intro s around event states
  have hnameless : states false "" = [received, parsing, contractViolation, dedupCheck, emitDlq] :=
    by decide
  have hunpriced : states false "y" = [received, parsing, fieldCheck, dedupCheck, emitDlq] := by
    decide
  have hunfilled : states true "y" =
      [received, parsing, fieldCheck, backfillLookup, dedupCheck, emitDlq] := by decide
  refine ⟨hnameless, ?_, hunpriced, ?_, hunfilled, ?_⟩
  · rw [hnameless]
    decide
  · rw [hunpriced]
    decide
  · rw [hunfilled]
    decide

end MarketFeed
