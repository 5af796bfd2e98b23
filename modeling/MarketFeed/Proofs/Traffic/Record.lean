import MarketFeed.Proofs.Traffic.Step
import Mathlib.Data.List.Nodup

/-!
# What a run tells about its deliveries

The moves of a run tell what became of each delivery: which message came in, which output the
sink accepted, and what the message came to in the end. Each delivery has at most one accepted
output, and it is one that its message can come to. A delivery that has finished does not move
again.
-/

namespace MarketFeed

/-- An output that the sink has accepted, the delivery it came from, and the instant of its
mark. -/
structure Publication (ι : Type) where
  delivery : ι
  output : Output
  marked : Instant

/-- The publication in a move. -/
def Move.publication? {ι : Type} : Move ι → Option (Publication ι)
  | published i output marked => some ⟨i, output, marked⟩
  | _ => none

/-- The outputs that the sink accepted, in order. -/
def publications {ι : Type} (moves : List (Move ι)) : List (Publication ι) :=
  moves.filterMap Move.publication?

/-- A move is a publication if it tells its delivery, its output and the instant of its mark. -/
theorem Move.publication?_eq_some {ι : Type} {move : Move ι} {p : Publication ι} :
    move.publication? = some p ↔ move = .published p.delivery p.output p.marked := by
  obtain ⟨i, output, marked⟩ := p
  cases move <;> simp [publication?]

/-- The publications are told by the moves. -/
theorem mem_publications {ι : Type} {moves : List (Move ι)} {p : Publication ι} :
    p ∈ publications moves ↔ .published p.delivery p.output p.marked ∈ moves := by
  simp [publications, Move.publication?_eq_some]

/-- What a delivery is about to put out, or has put out, is something its message can come
to. -/
def Passage.Sound (setting : Setting) (passage : Passage) : Prop :=
  match passage.progress with
  | .asking _ event quote _ => setting.Asks passage.intake event quote
  | .decided _ verdict => setting.Admits passage.intake verdict
  | .sending _ _ output _ => setting.Emits passage.intake output
  | .answered _ _ output _ _ => setting.Emits passage.intake output
  | .published output _ => setting.Emits passage.intake output
  | _ => True

/-- A sound delivery has published what its message can come to. -/
theorem Passage.Sound.emits {setting : Setting} {passage : Passage} (h : passage.Sound setting)
    {output : Output} {marked : Instant}
    (haccepted : passage.progress.accepted? = some (output, marked)) :
    setting.Emits passage.intake output := by
  obtain ⟨intake, progress⟩ := passage
  cases progress with
  | answered started verdict output' marked' accepted =>
    cases accepted with
    | true =>
      cases haccepted
      exact h
    | false => cases haccepted
  | published output' marked' =>
    cases haccepted
    exact h
  | _ => cases haccepted

namespace Advance

variable {ι : Type} {setting : Setting} {i : ι} {intake : Intake} {progress progress' : Progress}
  {s s' : Shared} {move : Move ι}

/-- Only the delivery itself moves. -/
theorem subject (h : Advance setting i intake progress s move progress' s') :
    move.subject? = some i := by
  cases h <;> rfl

/-- A delivery on its way has come in before. -/
theorem ne_entered (h : Advance setting i intake progress s move progress' s') (j : ι)
    (intake' : Intake) : move ≠ .entered j intake' := by
  cases h <;> simp

/-- A delivery that moves has not finished. -/
theorem not_finished (h : Advance setting i intake progress s move progress' s') :
    progress.outcome? = none := by
  cases h <;> rfl

/-- A delivery finishes by telling what its message came to. -/
theorem finished_iff (h : Advance setting i intake progress s move progress' s')
    (outcome : Outcome) : progress'.outcome? = some outcome ↔ move = .finished i outcome := by
  cases h <;> simp [Progress.outcome?]

/-- A delivery whose output is accepted has told so, now or before. -/
theorem accepted_iff (h : Advance setting i intake progress s move progress' s') (output : Output)
    (marked : Instant) : progress'.accepted? = some (output, marked) ↔
      progress.accepted? = some (output, marked) ∨ move = .published i output marked := by
  cases h <;> simp [Progress.accepted?]

/-- A delivery has its output accepted once. -/
theorem not_accepted {output : Output} {marked : Instant}
    (h : Advance setting i intake progress s (.published i output marked) progress' s') :
    progress.accepted? = none := by
  cases h
  rfl

/-- Each step of a sound delivery leaves it sound. -/
theorem sound (h : Advance setting i intake progress s move progress' s')
    (hsound : Passage.Sound setting ⟨intake, progress⟩) :
    Passage.Sound setting ⟨intake, progress'⟩ := by
  cases h with
  | drop => trivial
  | settle h => exact Setting.takes_of_check h
  | ask h => exact Setting.takes_of_check h
  | @reply _ _ _ _ event quote reply verdict hreply h =>
    have hverdict : lookupVerdict event quote reply = verdict :=
      (Setting.answer_verdict ..).symm.trans (congrArg Prod.fst h)
    exact hverdict ▸ Setting.Asks.admits hsound hreply
  | commit h =>
    obtain ⟨-, -, -, houtput⟩ := Delivery.of_commit_some h
    exact ⟨_, s, _, hsound, houtput⟩
  | forgo => trivial
  | publish => exact hsound
  | refuse => exact hsound
  | accept => exact hsound
  | withdraw => trivial
  | retry => trivial

end Advance

namespace Traffic

variable {ι : Type} [DecidableEq ι] {setting : Setting}

/-- What the message of a delivery is taken for, if it has come in. -/
def intake? (t : Traffic ι) (i : ι) : Option Intake := (t.passages i).map Passage.intake

/-- The output of a delivery that the sink has accepted, and the instant of its mark. -/
def accepted? (t : Traffic ι) (i : ι) : Option (Output × Instant) :=
  (t.passages i).bind fun passage => passage.progress.accepted?

/-- What the message of a delivery came to, if it has finished. -/
def outcome? (t : Traffic ι) (i : ι) : Option Outcome :=
  (t.passages i).bind fun passage => passage.progress.outcome?

/-- The deliveries after one of them has come so far. -/
@[simp] theorem passages_put (t : Traffic ι) (i : ι) (passage : Passage) (s : Shared) :
    (t.put i passage s).passages = Function.update t.passages i (some passage) := rfl

/-! ## One step -/

section Step

variable {t t' : Traffic ι} {move : Move ι}

/-- A message has come in if it came in before or now. -/
theorem Step.intake_iff (h : Step setting t move t') (i : ι) (intake : Intake) :
    t'.intake? i = some intake ↔ t.intake? i = some intake ∨ move = .entered i intake := by
  cases h with
  | @enter j _ hnew =>
    by_cases hi : i = j
    · subst hi
      simp [intake?, hnew]
    · simp [intake?, hi, Ne.symm hi]
  | @advance j _ _ _ _ _ hpassage hadvance =>
    by_cases hi : i = j
    · subst hi
      simp [intake?, hpassage, hadvance.ne_entered]
    · simp [intake?, hi, hadvance.ne_entered]
  | ambient => simp [intake?]

/-- An output is accepted if it was accepted before or now. -/
theorem Step.accepted_iff (h : Step setting t move t') (i : ι) (output : Output)
    (marked : Instant) : t'.accepted? i = some (output, marked) ↔
      t.accepted? i = some (output, marked) ∨ move = .published i output marked := by
  cases h with
  | @enter j _ hnew =>
    by_cases hi : i = j
    · subst hi
      simp [accepted?, hnew, Progress.accepted?]
    · simp [accepted?, hi]
  | @advance j _ _ _ _ _ hpassage hadvance =>
    by_cases hi : i = j
    · subst hi
      simpa [accepted?, hpassage] using hadvance.accepted_iff output marked
    · have hother : move ≠ .published i output marked := by
        rintro rfl
        exact hi (Option.some.inj hadvance.subject)
      simp [accepted?, hi, hother]
  | ambient => simp [accepted?]

/-- A delivery has finished if it finished before or now. -/
theorem Step.outcome_iff (h : Step setting t move t') (i : ι) (outcome : Outcome) :
    t'.outcome? i = some outcome ↔ t.outcome? i = some outcome ∨ move = .finished i outcome := by
  cases h with
  | @enter j _ hnew =>
    by_cases hi : i = j
    · subst hi
      simp [outcome?, hnew, Progress.outcome?]
    · simp [outcome?, hi]
  | @advance j _ _ _ _ _ hpassage hadvance =>
    by_cases hi : i = j
    · subst hi
      simpa [outcome?, hpassage, hadvance.not_finished] using hadvance.finished_iff outcome
    · have hother : move ≠ .finished i outcome := by
        rintro rfl
        exact hi (Option.some.inj hadvance.subject)
      simp [outcome?, hi, hother]
  | ambient => simp [outcome?]

/-- An output is accepted of a delivery that had none accepted before. -/
theorem Step.not_accepted {i : ι} {output : Output} {marked : Instant}
    (h : Step setting t (.published i output marked) t') : t.accepted? i = none := by
  cases h with
  | @advance j _ _ _ _ _ hpassage hadvance =>
    obtain rfl : i = j := Option.some.inj hadvance.subject
    simp [accepted?, hpassage, hadvance.not_accepted]

/-- Where a delivery stands after a step: where it stood before, since something else has moved, or
at its beginning, or where its own step has led it. -/
theorem Step.passage_cases (h : Step setting t move t') {i : ι} {passage : Passage}
    (hpassage : t'.passages i = some passage) :
    (t.passages i = some passage ∧ move.subject? ≠ some i) ∨
      (∃ intake, move = .entered i intake ∧ passage = ⟨intake, .waiting⟩) ∨
      ∃ intake progress progress', passage = ⟨intake, progress'⟩ ∧
        t.passages i = some ⟨intake, progress⟩ ∧
        Advance setting i intake progress t.shared move progress' t'.shared := by
  cases h with
  | @enter j intake hnew =>
    by_cases hi : i = j
    · subst hi
      obtain rfl : _ = passage := by simpa using hpassage
      exact .inr (.inl ⟨intake, rfl, rfl⟩)
    · exact .inl ⟨by simpa [hi] using hpassage, by simpa [Move.subject?] using Ne.symm hi⟩
  | @advance j intake progress progress' _ _ hold hadvance =>
    by_cases hi : i = j
    · subst hi
      obtain rfl : _ = passage := by simpa using hpassage
      exact .inr (.inr ⟨intake, progress, progress', rfl, hold, hadvance⟩)
    · refine .inl ⟨by simpa [hi] using hpassage, ?_⟩
      rw [hadvance.subject]
      simpa using Ne.symm hi
  | ambient => exact .inl ⟨hpassage, by simp [Move.subject?]⟩

/-- A step leaves all deliveries sound. -/
theorem Step.sound (h : Step setting t move t')
    (hsound : ∀ i passage, t.passages i = some passage → passage.Sound setting) (i : ι)
    (passage : Passage) (hpassage : t'.passages i = some passage) : passage.Sound setting := by
  rcases h.passage_cases hpassage with
    ⟨hold, -⟩ | ⟨intake, -, rfl⟩ | ⟨intake, progress, progress', rfl, hold, hadvance⟩
  · exact hsound i passage hold
  · trivial
  · exact hadvance.sound (hsound i _ hold)

end Step

/-! ## A whole run -/

section Run

variable {ttl maxEntries : Nat} {s : Shared} {moves : List (Move ι)} {t : Traffic ι}

/-- The messages that came in. -/
theorem Run.entered_iff (h : Run setting (.start ttl maxEntries s) moves t) (i : ι)
    (intake : Intake) : .entered i intake ∈ moves ↔ t.intake? i = some intake := by
  induction h with
  | nil => simp [start, intake?]
  | snoc _ hstep ih => simp [hstep.intake_iff, ih, eq_comm]

/-- The outputs that were accepted. -/
theorem Run.published_iff (h : Run setting (.start ttl maxEntries s) moves t) (i : ι)
    (output : Output) (marked : Instant) :
    .published i output marked ∈ moves ↔ t.accepted? i = some (output, marked) := by
  induction h with
  | nil => simp [start, accepted?]
  | snoc _ hstep ih => simp [hstep.accepted_iff, ih, eq_comm]

/-- The deliveries that have finished. -/
theorem Run.finished_iff (h : Run setting (.start ttl maxEntries s) moves t) (i : ι)
    (outcome : Outcome) : .finished i outcome ∈ moves ↔ t.outcome? i = some outcome := by
  induction h with
  | nil => simp [start, outcome?]
  | snoc _ hstep ih => simp [hstep.outcome_iff, ih, eq_comm]

/-- All deliveries of a run are sound. -/
theorem Run.sound (h : Run setting (.start ttl maxEntries s) moves t) (i : ι) (passage : Passage)
    (hpassage : t.passages i = some passage) : passage.Sound setting := by
  induction h generalizing i passage with
  | nil => cases hpassage
  | snoc _ hstep ih => exact hstep.sound ih i passage hpassage

/-- No delivery has two outputs accepted. -/
theorem Run.publications_nodup (h : Run setting (.start ttl maxEntries s) moves t) :
    ((publications moves).map Publication.delivery).Nodup := by
  induction h with
  | nil => exact List.nodup_nil
  | @snoc moves t t' move hrun hstep ih =>
    cases hmove : move.publication? with
    | none => simpa [publications, List.filterMap_append, hmove] using ih
    | some p =>
      obtain rfl := Move.publication?_eq_some.mp hmove
      have hnew : p.delivery ∉ (publications moves).map Publication.delivery := by
        intro hmem
        obtain ⟨q, hq, hdelivery⟩ := List.mem_map.mp hmem
        have haccepted := (hrun.published_iff _ _ _).mp (mem_publications.mp hq)
        simp [hdelivery, hstep.not_accepted] at haccepted
      have happend : publications (moves ++ [.published p.delivery p.output p.marked]) =
          publications moves ++ [p] := by
        simp [publications, Move.publication?]
      rw [happend, List.map_append]
      exact ih.append (List.nodup_singleton _) (by simpa using hnew)

/-- What a delivery has published is about the event of its message. -/
theorem Run.emits (h : Run setting (.start ttl maxEntries s) moves t) {p : Publication ι}
    (hp : p ∈ publications moves) :
    ∃ intake, t.intake? p.delivery = some intake ∧ setting.Emits intake p.output := by
  have haccepted := (h.published_iff _ _ _).mp (mem_publications.mp hp)
  obtain ⟨passage, hpassage, hprogress⟩ := Option.bind_eq_some_iff.mp haccepted
  exact ⟨passage.intake, by simp [intake?, hpassage], (h.sound _ _ hpassage).emits hprogress⟩

/-- A delivery that has finished with an output has published one for the id of its message. -/
theorem Run.exists_publication (h : Run setting (.start ttl maxEntries s) moves t) {i : ι}
    {intake : Intake} {output : Output} (hintake : t.intake? i = some intake)
    (houtcome : t.outcome? i = some (.published output)) :
    ∃ p ∈ publications moves, p.output.eventId = intake.id := by
  obtain ⟨passage, hpassage, hprogress⟩ := Option.bind_eq_some_iff.mp houtcome
  obtain ⟨marked, haccepted⟩ := Progress.accepted?_of_outcome? hprogress
  have hmove : .published i output marked ∈ moves :=
    (h.published_iff _ _ _).mpr (by simp [accepted?, hpassage, haccepted])
  obtain rfl : passage.intake = intake := by simpa [intake?, hpassage] using hintake
  exact ⟨⟨i, output, marked⟩, mem_publications.mpr hmove,
    ((h.sound _ _ hpassage).emits haccepted).eventId⟩

end Run

end Traffic

end MarketFeed
