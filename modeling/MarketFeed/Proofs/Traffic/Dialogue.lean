import MarketFeed.Proofs.Traffic.Record

/-!
# Runs together with the replies of the store

The moves of a run tell that the store replied, but not what. Any run can be told once more with
the question that each delivery asked last and the reply it got. What a delivery decides rests on
that reply alone, whatever else the store may reply to others or later. And what a delivery has
handed to the sink is the record that was made when it last marked the id.
-/

namespace MarketFeed

/-- A question to the store, for an instrument, and the reply to it. -/
structure Exchange where
  instrumentId : String
  reply : LookupAnswer

/-- The same setting, but with a store that replies just so, or never. -/
def Setting.given (setting : Setting) (exchange? : Option Exchange) : Setting :=
  ⟨setting.backfills, fun instrumentId reply => exchange? = some ⟨instrumentId, reply⟩⟩

/-- What a message asks the store does not depend on what the store replies. -/
theorem Setting.Asks.given {setting : Setting} {intake : Intake} {event : RawEvent} {quote : Quote}
    (h : setting.Asks intake event quote) (exchange? : Option Exchange) :
    (setting.given exchange?).Asks intake event quote :=
  ⟨h.isEvent, h.valid, h.noPrice, h.backfills⟩

/-- The output that a delivery has handed to the sink. -/
def Progress.handed? : Progress → Option Output
  | sending _ _ output _ => some output
  | answered _ _ output _ _ => some output
  | published output _ => some output
  | _ => none

/-! ## One delivery -/

namespace Advance

variable {ι : Type} {setting : Setting} {i : ι} {intake : Intake} {progress progress' : Progress}
  {s s' : Shared} {move : Move ι}

/-- A step in which the store does not reply is the same whatever the store may reply. -/
theorem given (h : Advance setting i intake progress s move progress' s')
    (hmove : move ≠ .replied i) (exchange? : Option Exchange) :
    Advance (setting.given exchange?) i intake progress s move progress' s' := by
  cases h with
  | drop h => exact .drop h
  | settle h => exact .settle h
  | ask h => exact .ask h
  | reply => exact absurd rfl hmove
  | commit h => exact .commit h
  | forgo h => exact .forgo h
  | publish => exact .publish
  | refuse => exact .refuse
  | accept => exact .accept
  | withdraw => exact .withdraw
  | retry => exact .retry

/-- A delivery that has handed an output to the sink has done so before, or marks the id now and
makes the record of its verdict. -/
theorem handed (h : Advance setting i intake progress s move progress' s') {output : Output}
    (hhanded : progress'.handed? = some output) :
    (progress.handed? = some output ∧ ∀ id, move ≠ .committed i id) ∨
      ∃ started verdict, progress = .decided started verdict ∧ move = .committed i intake.id ∧
        output = ((setting.delivery intake started).record s verdict).1 := by
  cases h with
  | @commit _ _ started verdict output' h =>
    obtain ⟨-, -, -, hrecord⟩ := Delivery.of_commit_some h
    obtain rfl : output' = output := Option.some.inj hhanded
    exact .inr ⟨started, verdict, rfl, rfl, hrecord⟩
  | publish => exact .inl ⟨hhanded, by simp⟩
  | refuse => exact .inl ⟨hhanded, by simp⟩
  | accept => exact .inl ⟨hhanded, by simp⟩
  | _ => cases hhanded

end Advance

namespace Traffic

variable {ι : Type} [DecidableEq ι] {setting : Setting}

/-- The output that a delivery has handed to the sink. -/
def handed? (t : Traffic ι) (i : ι) : Option Output :=
  (t.passages i).bind fun passage => passage.progress.handed?

/-! ## One step -/

/-- One step of the traffic, where `heard` is what each delivery was replied last. -/
inductive Turn (setting : Setting) (t : Traffic ι) (heard : ι → Option Exchange) :
    Move ι → Traffic ι → (ι → Option Exchange) → Prop
  | reply {i : ι} {intake : Intake} {started since : Instant} {event : RawEvent} {quote : Quote}
      {reply : LookupAnswer} {verdict : Verdict} {s : Shared}
      (hpassage : t.passages i = some ⟨intake, .asking started event quote since⟩)
      (hreply : setting.replies quote.instrumentId reply)
      (h : (setting.delivery intake started).answer event quote since reply t.shared =
        (verdict, s)) :
      Turn setting t heard (.replied i) (t.put i ⟨intake, .decided started verdict⟩ s)
        (Function.update heard i (some ⟨quote.instrumentId, reply⟩))
  | other {move : Move ι} {t' : Traffic ι} (hmove : ∀ i, move ≠ .replied i)
      (hstep : Step setting t move t') : Turn setting t heard move t' heard

section Turn

variable {t t' : Traffic ι} {move : Move ι} {heard heard' : ι → Option Exchange}

/-- Such a step is a step. -/
theorem Turn.step (h : Turn setting t heard move t' heard') : Step setting t move t' := by
  cases h with
  | reply hpassage hreply h => exact .advance hpassage (.reply hreply h)
  | other _ hstep => exact hstep

/-- Every step can be told with the replies. -/
theorem Step.exists_turn (h : Step setting t move t') (heard : ι → Option Exchange) :
    ∃ heard', Turn setting t heard move t' heard' := by
  by_cases hmove : ∃ i, move = .replied i
  · obtain ⟨i, rfl⟩ := hmove
    cases h with
    | advance hpassage h =>
      cases h with
      | reply hreply h => exact ⟨_, .reply hpassage hreply h⟩
  · exact ⟨heard, .other (fun i hi => hmove ⟨i, hi⟩) h⟩

/-- After a step, what each delivery is about to put out still rests on what it was replied. -/
theorem Turn.sound (h : Turn setting t heard move t' heard')
    (hsound : ∀ i passage, t.passages i = some passage →
      passage.Sound (setting.given (heard i)))
    (i : ι) (passage : Passage) (hpassage : t'.passages i = some passage) :
    passage.Sound (setting.given (heard' i)) := by
  cases h with
  | @reply j intake started since event quote reply verdict s hold hreply h =>
    by_cases hi : i = j
    · subst hi
      obtain rfl : _ = passage := by simpa using hpassage
      rw [Function.update_self]
      -- The same step, told in the setting in which this is the only reply.
      have hadvance : Advance (setting.given (some ⟨quote.instrumentId, reply⟩)) i intake
          (.asking started event quote since) t.shared (.replied i) (.decided started verdict) s :=
        .reply rfl h
      have hasks : (setting.given (heard i)).Asks intake event quote := hsound i _ hold
      exact hadvance.sound (hasks.given _)
    · rw [Function.update_of_ne hi]
      exact hsound i passage (by simpa [hi] using hpassage)
  | other hmove hstep =>
    rcases hstep.passage_cases hpassage with
      ⟨hold, -⟩ | ⟨intake, -, rfl⟩ | ⟨intake, progress, progress', rfl, hold, hadvance⟩
    · exact hsound i passage hold
    · trivial
    · exact (hadvance.given (hmove i) _).sound (hsound i _ hold)

/-- What the sink was handed it was handed before, or it is handed the record of a verdict now. -/
theorem Turn.handed (h : Turn setting t heard move t' heard') {i : ι} {output : Output}
    (hhanded : t'.handed? i = some output) :
    heard' i = heard i ∧
      ((t.handed? i = some output ∧ t'.intake? i = t.intake? i ∧ ∀ id, move ≠ .committed i id) ∨
        ∃ intake started verdict, t.passages i = some ⟨intake, .decided started verdict⟩ ∧
          t'.intake? i = some intake ∧ move = .committed i intake.id ∧
          output = ((setting.delivery intake started).record t.shared verdict).1) := by
  cases h with
  | @reply j intake started since event quote reply verdict s hold hreply h =>
    by_cases hi : i = j
    · subst hi
      simp [handed?, Progress.handed?] at hhanded
    · rw [Function.update_of_ne hi]
      refine ⟨rfl, .inl ⟨?_, ?_, by simp⟩⟩
      · simpa [handed?, hi] using hhanded
      · simp [intake?, hi]
  | other hmove hstep =>
    refine ⟨rfl, ?_⟩
    obtain ⟨passage, hpassage, hprogress⟩ := Option.bind_eq_some_iff.mp hhanded
    rcases hstep.passage_cases hpassage with
      ⟨hold, hother⟩ | ⟨intake, -, rfl⟩ | ⟨intake, progress, progress', rfl, hold, hadvance⟩
    · refine .inl ⟨by simpa [handed?, hold] using hprogress, by simp [intake?, hpassage, hold], ?_⟩
      rintro id rfl
      exact hother rfl
    · cases hprogress
    · rcases hadvance.handed hprogress with
        ⟨hbefore, hother⟩ | ⟨started, verdict, rfl, hcommit, hrecord⟩
      · refine .inl ⟨?_, by simp [intake?, hpassage, hold], hother⟩
        simpa [handed?, hold] using hbefore
      · exact .inr ⟨intake, started, verdict, hold, by simp [intake?, hpassage], hcommit, hrecord⟩

end Turn

/-! ## A whole run -/

/-- A run with what each delivery was replied last. -/
inductive Dialogue (setting : Setting) (t₀ : Traffic ι) :
    List (Move ι) → Traffic ι → (ι → Option Exchange) → Prop
  | nil : Dialogue setting t₀ [] t₀ fun _ => none
  | snoc {moves : List (Move ι)} {t t' : Traffic ι} {heard heard' : ι → Option Exchange}
      {move : Move ι} (h : Dialogue setting t₀ moves t heard)
      (hturn : Turn setting t heard move t' heard') :
      Dialogue setting t₀ (moves ++ [move]) t' heard'

/-- Such a run is a run. -/
theorem Dialogue.run {t₀ t : Traffic ι} {moves : List (Move ι)} {heard : ι → Option Exchange}
    (h : Dialogue setting t₀ moves t heard) : Run setting t₀ moves t := by
  induction h with
  | nil => exact .nil
  | snoc _ hturn ih => exact ih.snoc hturn.step

/-- Every run can be told with the replies. -/
theorem Run.exists_dialogue {t₀ t : Traffic ι} {moves : List (Move ι)}
    (h : Run setting t₀ moves t) : ∃ heard, Dialogue setting t₀ moves t heard := by
  induction h with
  | nil => exact ⟨_, .nil⟩
  | snoc _ hstep ih =>
    obtain ⟨heard, h⟩ := ih
    obtain ⟨heard', hturn⟩ := hstep.exists_turn heard
    exact ⟨heard', h.snoc hturn⟩

variable {ttl maxEntries : Nat} {s : Shared} {moves : List (Move ι)} {t : Traffic ι}
  {heard : ι → Option Exchange}

/-- What each delivery of a run is about to put out, or has put out, rests on what it was replied
last. -/
theorem Dialogue.sound (h : Dialogue setting (.start ttl maxEntries s) moves t heard) (i : ι)
    (passage : Passage) (hpassage : t.passages i = some passage) :
    passage.Sound (setting.given (heard i)) := by
  induction h generalizing i passage with
  | nil => cases hpassage
  | snoc _ hturn ih => exact hturn.sound ih i passage hpassage

/-- The step of a run at which a delivery marked its id for the last time, and what led to it and
from it. -/
structure LastCommit (setting : Setting) (t₀ : Traffic ι) (moves : List (Move ι)) (t : Traffic ι)
    (i : ι) (id : String) where
  before : List (Move ι)
  after : List (Move ι)
  source : Traffic ι
  target : Traffic ι
  split : moves = before ++ .committed i id :: after
  run : Run setting t₀ before source
  step : Step setting source (.committed i id) target
  rest : Run setting target after t
  last : ∀ id, .committed i id ∉ after

/-- The last commit of a delivery stays the last one over the other steps. -/
def LastCommit.snoc {t₀ t t' : Traffic ι} {moves : List (Move ι)} {move : Move ι} {i : ι}
    {id : String} (commit : LastCommit setting t₀ moves t i id) (hstep : Step setting t move t')
    (hother : ∀ id, move ≠ .committed i id) :
    LastCommit setting t₀ (moves ++ [move]) t' i id where
  before := commit.before
  after := commit.after ++ [move]
  source := commit.source
  target := commit.target
  split := by simp [commit.split]
  run := commit.run
  step := commit.step
  rest := commit.rest.snoc hstep
  last := by
    intro id hmem
    rcases List.mem_append.mp hmem with hold | hnew
    · exact commit.last id hold
    · exact hother id (List.mem_singleton.mp hnew).symm

/-- What a delivery has handed to the sink it handed over when it last marked its id: it is the
record, made then, of a verdict that its message admits in view of the reply. -/
theorem Dialogue.handed (h : Dialogue setting (.start ttl maxEntries s) moves t heard) {i : ι}
    {output : Output} (hhanded : t.handed? i = some output) :
    ∃ intake, t.intake? i = some intake ∧
      ∃ (commit : LastCommit setting (.start ttl maxEntries s) moves t i intake.id)
        (started : Instant) (verdict : Verdict),
        (setting.given (heard i)).Admits intake verdict ∧
          output = ((setting.delivery intake started).record commit.source.shared verdict).1 := by
  induction h with
  | nil => cases hhanded
  | @snoc moves t t' heard heard' move h hturn ih =>
    obtain ⟨hheard, ⟨hbefore, hintake, hother⟩ |
      ⟨intake, started, verdict, hpassage, hintake, rfl, hrecord⟩⟩ := hturn.handed hhanded
    · obtain ⟨intake, hsame, commit, started, verdict, hadmits, hrecord⟩ := ih hbefore
      rw [hheard]
      exact ⟨intake, hintake.trans hsame, commit.snoc hturn.step hother, started, verdict,
        hadmits, hrecord⟩
    · have hadmits : (setting.given (heard i)).Admits intake verdict := h.sound i _ hpassage
      rw [hheard]
      exact ⟨intake, hintake, ⟨moves, [], t, t', rfl, h.run, hturn.step, .nil, by simp⟩, started,
        verdict, hadmits, hrecord⟩

end Traffic

end MarketFeed
