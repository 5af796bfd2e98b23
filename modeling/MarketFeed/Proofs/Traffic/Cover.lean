import MarketFeed.Proofs.Traffic.Marks
import MarketFeed.Proofs.Traffic.Record

/-!
# No message is lost to another

A message is dropped because its id is live, which is to say that another delivery holds a
mark of the id. That delivery may still fail and withdraw the mark; it may even be dropped
itself when it is tried again, but then for a third one. So for each message that was dropped
there is always a delivery of the same id that was not: it has put something out, or it has not
finished. This needs nothing from the guard but that its entries are marks that deliveries
hold, so it does not matter when entries expire or are evicted.
-/

namespace MarketFeed

/-- A delivery that is dropped finds its id live, and holds no mark itself. -/
theorem Advance.live_of_dropped {ι : Type} {setting : Setting} {i : ι} {intake : Intake}
    {progress progress' : Progress} {s s' : Shared}
    (h : Advance setting i intake progress s (.finished i .duplicate) progress' s') :
    s.guard.isLive s.instant intake.id = true ∧ progress.mark? = none := by
  cases h with
  | drop h => exact ⟨(Delivery.check_eq_drop_iff _ _).mp (congrArg Prod.fst h), rfl⟩
  | forgo h => exact ⟨(Delivery.of_commit_none h).1, rfl⟩

namespace Traffic

variable {ι : Type} [DecidableEq ι] {setting : Setting} {t t' : Traffic ι} {move : Move ι}

/-- Some delivery of an id was not dropped. -/
def Stands (t : Traffic ι) (id : String) : Prop :=
  ∃ i intake, t.intake? i = some intake ∧ intake.id = id ∧ t.outcome? i ≠ some .duplicate

/-- For each delivery that was dropped, another of its id was not. -/
def Covered (t : Traffic ι) : Prop :=
  ∀ i intake, t.intake? i = some intake → t.outcome? i = some .duplicate → t.Stands intake.id

/-- When a delivery is dropped, another one that came in holds a mark of its id. -/
theorem Step.holder_of_dropped {i : ι} {intake : Intake} (hheld : t.Held)
    (hstep : Step setting t (.finished i .duplicate) t') (hintake : t.intake? i = some intake) :
    ∃ j passage marked, j ≠ i ∧ t.passages j = some passage ∧ passage.intake.id = intake.id ∧
      passage.progress.mark? = some marked := by
  cases hstep with
  | @advance j intake' _ _ _ _ hpassage hadvance =>
    obtain rfl : i = j := Option.some.inj hadvance.subject
    obtain rfl : intake' = intake := by simpa [intake?, hpassage] using hintake
    obtain ⟨hlive, hnone⟩ := hadvance.live_of_dropped
    obtain ⟨marked, hentry, -⟩ := Guard.exists_fresh_of_isLive hlive
    obtain ⟨k, hk⟩ := hheld.holder _ hentry
    obtain ⟨passage, hother, hmark⟩ := Option.bind_eq_some_iff.mp hk
    obtain ⟨marked', hheldMark, hpair⟩ := Option.map_eq_some_iff.mp hmark
    refine ⟨k, passage, marked', ?_, hother, congrArg Prod.fst hpair, hheldMark⟩
    rintro rfl
    obtain rfl := Option.some.inj (hpassage.symm.trans hother)
    simp [hnone] at hheldMark

/-- A delivery that is dropped leaves another of its id that is not. -/
theorem Step.stands_of_dropped {i : ι} {intake : Intake} (hheld : t.Held)
    (hstep : Step setting t (.finished i .duplicate) t') (hintake : t.intake? i = some intake) :
    t'.Stands intake.id := by
  obtain ⟨k, passage, marked, hne, hother, hid, hmark⟩ := hstep.holder_of_dropped hheld hintake
  cases hstep with
  | @advance j intake' _ _ _ _ hpassage hadvance =>
    obtain rfl : i = j := Option.some.inj hadvance.subject
    refine ⟨k, passage.intake, by simp [intake?, hne, hother], hid, ?_⟩
    simpa [outcome?, hne, hother] using Progress.outcome?_of_mark? hmark

/-- Every step leaves all dropped deliveries covered: if the one that covers them is dropped,
there is one for which it was. -/
theorem Covered.step (h : t.Covered) (hheld : t.Held) (hstep : Step setting t move t') :
    t'.Covered := by
  -- A delivery that stood before stands, or another does.
  have hstands : ∀ id, t.Stands id → t'.Stands id := by
    rintro id ⟨j, intake, hintake, rfl, hnot⟩
    by_cases hdropped : t'.outcome? j = some .duplicate
    · rcases (hstep.outcome_iff _ _).mp hdropped with hold | rfl
      · exact absurd hold hnot
      · exact hstep.stands_of_dropped hheld hintake
    · exact ⟨j, intake, (hstep.intake_iff _ _).mpr (.inl hintake), rfl, hdropped⟩
  intro i intake hintake hdropped
  rcases (hstep.outcome_iff _ _).mp hdropped with hold | rfl
  · rcases (hstep.intake_iff _ _).mp hintake with hintake | rfl
    · exact hstands _ (h i intake hintake hold)
    · cases hstep with
      | enter _ hnew => simp [outcome?, hnew] at hold
      | advance _ hadvance => exact absurd rfl (hadvance.ne_entered _ _)
  · rcases (hstep.intake_iff _ _).mp hintake with hintake | hmove
    · exact hstep.stands_of_dropped hheld hintake
    · cases hmove

section Run

variable {ttl maxEntries : Nat} {s : Shared} {moves : List (Move ι)}

/-- In every run from an empty guard, all dropped deliveries are covered. -/
theorem Run.covered (hrun : Run setting (.start ttl maxEntries s) moves t) : t.Covered := by
  induction hrun with
  | nil =>
    intro i intake hintake
    simp [intake?, start] at hintake
  | snoc hrun hstep ih => exact ih.step hrun.held hstep

/-- No message is lost to another: when a message was dropped, an output for its id was
accepted, or another delivery of the id has not finished. -/
theorem Run.published_or_unfinished (hrun : Run setting (.start ttl maxEntries s) moves t) {i : ι}
    {intake : Intake} (hentered : .entered i intake ∈ moves)
    (hdropped : .finished i .duplicate ∈ moves) :
    (∃ p ∈ publications moves, p.output.eventId = intake.id) ∨
      ∃ j intake', .entered j intake' ∈ moves ∧ intake'.id = intake.id ∧ t.outcome? j = none := by
  obtain ⟨j, intake', hintake, hid, hnot⟩ :=
    hrun.covered i intake ((hrun.entered_iff _ _).mp hentered) ((hrun.finished_iff _ _).mp hdropped)
  cases houtcome : t.outcome? j with
  | none => exact .inr ⟨j, intake', (hrun.entered_iff _ _).mpr hintake, hid, houtcome⟩
  | some outcome =>
    cases outcome with
    | published output => exact .inl (hid ▸ hrun.exists_publication hintake houtcome)
    | duplicate => exact absurd houtcome hnot

end Run

end Traffic

end MarketFeed
