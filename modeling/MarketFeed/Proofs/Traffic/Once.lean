import MarketFeed.Proofs.Traffic.Cover
import MarketFeed.Proofs.Traffic.Window

/-!
# Exactly one output for each id

A run that is over within the time to live of its first instant has one window only, so no id
has two outputs. If moreover each of its messages has finished, each id has one: the message
was dropped in favour of another at most. What is put out for an id is then settled by the
message, up to instants and places. Two such runs with the same messages have the same outputs,
whatever the order of their steps, however often a message came in and however often the sink
refused an output.
-/

namespace MarketFeed

/-- A delivery marks the id of its message. -/
theorem Advance.committed_id {ι : Type} {setting : Setting} {i j : ι} {intake : Intake}
    {progress progress' : Progress} {s s' : Shared} {id : String}
    (h : Advance setting i intake progress s (.committed j id) progress' s') :
    j = i ∧ id = intake.id := by
  cases h
  exact ⟨rfl, rfl⟩

namespace Traffic

variable {ι : Type} [DecidableEq ι] {setting : Setting} {ttl maxEntries : Nat} {s : Shared}
  {moves : List (Move ι)} {t t' : Traffic ι} {move : Move ι}

/-- The instants of a run lie between its first one and its last one. -/
structure Timed (first : Instant) (moves : List (Move ι)) (t : Traffic ι) : Prop where
  clock : first ≤ t.shared.instant
  marks : ∀ i id marked, t.marks i = some (id, marked) → first ≤ marked
  withdrawn : ∀ i marked now, .withdrawn i marked now ∈ moves →
    first ≤ marked ∧ now ≤ t.shared.instant

/-- A step goes on in time. -/
theorem Timed.step {first : Instant} (h : t.Timed first moves) (hheld : t.Held)
    (hstep : Step setting t move t') : t'.Timed first (moves ++ [move]) := by
  cases hstep.effect hheld.oneEach with
  | tidy hmarks hclock _ hmove =>
    refine ⟨h.clock.trans hclock, hmarks ▸ h.marks, fun i marked now hmem => ?_⟩
    rcases List.mem_append.mp hmem with hold | hnew
    · exact (h.withdrawn i marked now hold).imp_right fun hle => hle.trans hclock
    · rw [← List.mem_singleton.mp hnew] at hmove
      exact hmove.elim
  | mark i id _ hmarks _ hclock _ hmove =>
    refine ⟨hclock ▸ h.clock, fun j name marked hj => ?_, fun j marked now hmem => ?_⟩
    · rw [hmarks, update_marks_eq_some] at hj
      rcases hj with ⟨-, hnew⟩ | ⟨-, hold⟩
      · cases hnew
        exact h.clock
      · exact h.marks j name marked hold
    · rw [hclock]
      exact h.withdrawn j marked now (by simpa [hmove] using hmem)
  | forget i id marked hmark hmarks hclock _ hmove =>
    refine ⟨hclock ▸ h.clock, fun j name marked' hj => ?_, fun j marked' now hmem => ?_⟩
    · rw [hmarks, update_marks_eq_some] at hj
      obtain ⟨-, hold⟩ : j ≠ i ∧ t.marks j = some (name, marked') := by simpa using hj
      exact h.marks j name marked' hold
    · rw [hclock]
      rcases List.mem_append.mp hmem with hold | hnew
      · exact h.withdrawn j marked' now hold
      · rw [List.mem_singleton, hmove] at hnew
        cases hnew
        exact ⟨h.marks i id marked hmark, Nat.le_refl _⟩

/-- The instants of a run lie between that of its start and that of its end. -/
theorem Run.timed (hrun : Run setting (.start ttl maxEntries s) moves t) :
    t.Timed s.instant moves := by
  induction hrun with
  | nil => exact ⟨Nat.le_refl _, by simp [Traffic.marks, start], by simp⟩
  | snoc hrun hstep ih => exact ih.step hrun.held hstep

/-- An id that was marked is that of a message that came in. -/
theorem Run.committed_entered (hrun : Run setting (.start ttl maxEntries s) moves t) {i : ι}
    {id : String} (hmem : .committed i id ∈ moves) :
    ∃ intake, .entered i intake ∈ moves ∧ intake.id = id := by
  induction hrun with
  | nil => cases hmem
  | snoc hrun hstep ih =>
    rcases List.mem_append.mp hmem with hold | hnew
    · obtain ⟨intake, hentered, hid⟩ := ih hold
      exact ⟨intake, List.mem_append_left _ hentered, hid⟩
    · obtain rfl := List.mem_singleton.mp hnew
      cases hstep with
      | @advance j intake _ _ _ _ hpassage hadvance =>
        obtain ⟨rfl, rfl⟩ := hadvance.committed_id
        have hentered := (hrun.entered_iff i intake).mpr (by simp [intake?, hpassage])
        exact ⟨intake, List.mem_append_left _ hentered, rfl⟩

/-- There is room for all ids that are marked if there is room for those of all messages. -/
theorem Run.fewIds (hrun : Run setting (.start ttl maxEntries s) moves t) {ids : Finset String}
    (hids : ∀ i intake, .entered i intake ∈ moves → intake.id ∈ ids)
    (hcard : ids.card ≤ maxEntries) : FewIds maxEntries moves := by
  refine (Finset.card_le_card fun id hid => ?_).trans hcard
  obtain ⟨move, hmem, hmove⟩ := List.mem_filterMap.mp (List.mem_toFinset.mp hid)
  cases move with
  | committed i id' =>
    obtain rfl : id' = id := Option.some.inj hmove
    obtain ⟨intake, hentered, rfl⟩ := hrun.committed_entered hmem
    exact hids i intake hentered
  | _ => cases hmove

/-- A run that is over within the time to live: the guard has room for all ids it marks, and
each of its messages has finished. -/
structure Concluded (setting : Setting) (ttl maxEntries : Nat) (s : Shared)
    (moves : List (Move ι)) (t : Traffic ι) : Prop where
  run : Run setting (.start ttl maxEntries s) moves t
  short : t.shared.instant < s.instant + ttl
  few : FewIds maxEntries moves
  finished : ∀ i intake, .entered i intake ∈ moves → ∃ outcome, .finished i outcome ∈ moves

namespace Concluded

/-- No mark of such a run expires. -/
theorem promptFailures (h : Concluded setting ttl maxEntries s moves t) :
    PromptFailures ttl moves := by
  intro i marked now hmem
  obtain ⟨hmarked, hnow⟩ := h.run.timed.withdrawn i marked now hmem
  calc now ≤ t.shared.instant := hnow
    _ < s.instant + ttl := h.short
    _ ≤ marked + ttl := Nat.add_le_add_right hmarked ttl

/-- No id has two outputs: their marks would be too far apart. -/
theorem ids_nodup (h : Concluded setting ttl maxEntries s moves t) :
    ((publications moves).map fun p => p.output.eventId).Nodup := by
  have hspaced := h.run.spaced h.few h.promptFailures
  have hinside : ∀ p ∈ publications moves, s.instant ≤ p.marked ∧ p.marked ≤ t.shared.instant :=
    fun p hp => ⟨h.run.timed.marks _ _ _ (h.run.mark_of_publication hp),
      hspaced.past _ _ _ (h.run.mark_of_publication hp)⟩
  refine List.pairwise_map.mpr ((h.run.publications_apart h.few h.promptFailures).imp_of_mem ?_)
  intro p q hp hq hapart hid
  obtain ⟨hfirst, hlast⟩ := hinside p hp
  obtain ⟨hfirst', hlast'⟩ := hinside q hq
  have hshort := h.short
  rcases hapart hid with hle | hle
  · exact Nat.not_lt.mpr ((Nat.add_le_add_right hfirst ttl).trans (hle.trans hlast')) hshort
  · exact Nat.not_lt.mpr ((Nat.add_le_add_right hfirst' ttl).trans (hle.trans hlast)) hshort

/-- Each message has an output for its id. -/
theorem exists_publication (h : Concluded setting ttl maxEntries s moves t) {i : ι}
    {intake : Intake} (hentered : .entered i intake ∈ moves) :
    ∃ p ∈ publications moves, p.output.eventId = intake.id := by
  obtain ⟨outcome, hfinished⟩ := h.finished i intake hentered
  cases outcome with
  | published output =>
    exact h.run.exists_publication ((h.run.entered_iff _ _).mp hentered)
      ((h.run.finished_iff _ _).mp hfinished)
  | duplicate =>
    rcases h.run.published_or_unfinished hentered hfinished with hpublished |
      ⟨j, intake', hentered', -, hnone⟩
    · exact hpublished
    · obtain ⟨outcome, hfinished'⟩ := h.finished j intake' hentered'
      rw [h.run.finished_iff, hnone] at hfinished'
      cases hfinished'

/-- Each output is for a message that came in. -/
theorem exists_entered (h : Concluded setting ttl maxEntries s moves t) {p : Publication ι}
    (hp : p ∈ publications moves) : ∃ intake, .entered p.delivery intake ∈ moves ∧
      setting.Emits intake p.output := by
  obtain ⟨intake, hintake, hemits⟩ := h.run.emits hp
  exact ⟨intake, (h.run.entered_iff _ _).mpr hintake, hemits⟩

/-- The ids that have an output are those of the messages. -/
theorem mem_ids (h : Concluded setting ttl maxEntries s moves t) (id : String) :
    id ∈ (publications moves).map (fun p => p.output.eventId) ↔
      ∃ i intake, .entered i intake ∈ moves ∧ intake.id = id := by
  rw [List.mem_map]
  constructor
  · rintro ⟨p, hp, rfl⟩
    obtain ⟨intake, hentered, hemits⟩ := h.exists_entered hp
    exact ⟨p.delivery, intake, hentered, hemits.eventId.symm⟩
  · rintro ⟨i, intake, hentered, rfl⟩
    exact h.exists_publication hentered

end Concluded

/-! ## Two runs with the same messages -/

section Confluence

variable {κ : Type} [DecidableEq κ] {backfills : Bool} {answer : String → LookupAnswer}
  {ttl' maxEntries' : Nat} {s' : Shared} {moves' : List (Move κ)} {u : Traffic κ}

/-- What a run has put out, up to instants and places. -/
def bareOutputs {ι : Type} (moves : List (Move ι)) : List Output :=
  (publications moves).map fun p => p.output.bare

/-- No bare output is put out twice. -/
theorem Concluded.bareOutputs_nodup (h : Concluded setting ttl maxEntries s moves t) :
    (bareOutputs moves).Nodup := by
  refine List.Nodup.of_map Output.eventId ?_
  simpa [bareOutputs, Function.comp_def] using h.ids_nodup

/-- If the messages of one id are alike in both runs, and each id of the first is one of the
second, what the first puts out the second does as well. -/
theorem Concluded.bareOutputs_subset
    (h : Concluded ⟨backfills, fun id reply => reply = answer id⟩ ttl maxEntries s moves t)
    (h' : Concluded ⟨backfills, fun id reply => reply = answer id⟩ ttl' maxEntries' s' moves' u)
    (halike : ∀ i intake j intake', .entered i intake ∈ moves → .entered j intake' ∈ moves' →
      intake.id = intake'.id → intake.Alike intake')
    (hids : ∀ i intake, .entered i intake ∈ moves →
      ∃ j intake', .entered j intake' ∈ moves' ∧ intake'.id = intake.id) :
    bareOutputs moves ⊆ bareOutputs moves' := by
  intro output hmem
  obtain ⟨p, hp, rfl⟩ := List.mem_map.mp hmem
  obtain ⟨intake, hentered, hemits⟩ := h.exists_entered hp
  obtain ⟨j, intake', hentered', hid⟩ := hids _ _ hentered
  obtain ⟨q, hq, hqid⟩ := h'.exists_publication hentered'
  obtain ⟨intake'', hentered'', hemits''⟩ := h'.exists_entered hq
  have hsame : intake.id = intake''.id := by
    rw [← hid, ← hqid, hemits''.eventId]
  refine List.mem_map.mpr ⟨q, hq, ?_⟩
  exact (hemits.bare_unique (halike _ _ _ _ hentered hentered'' hsame) hemits'').symm

end Confluence

end Traffic

end MarketFeed
