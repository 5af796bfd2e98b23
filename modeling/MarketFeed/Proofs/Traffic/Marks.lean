import MarketFeed.Proofs.Traffic.Step
import Mathlib.Data.List.Basic

/-!
# Marks and the deliveries that hold them

A delivery holds a mark from the instant it commits until it withdraws it, if ever. Seen from
the guard, each step of the traffic does one of three things: it tidies the guard and leaves
all marks where they are, or a delivery marks an id that was not live, or a delivery forgets
the id of the mark it holds. From this alone, every entry of the guard is a mark that some
delivery holds.
-/

namespace MarketFeed

/-- The id that was marked in a move. -/
def Move.committed? {ι : Type} : Move ι → Option String
  | committed _ id => some id
  | _ => none

/-- The ids that were marked, once for each time. -/
def committedIds {ι : Type} (moves : List (Move ι)) : List String := moves.filterMap Move.committed?

/-- Ids that were marked stay so. -/
theorem committedIds_subset {ι : Type} (moves : List (Move ι)) (move : Move ι) :
    committedIds moves ⊆ committedIds (moves ++ [move]) := by
  simp [committedIds]

/-- No mark is set or withdrawn in a move. -/
def Move.LeavesMarks {ι : Type} : Move ι → Prop
  | committed _ _ => False
  | withdrawn _ _ _ => False
  | _ => True

/-- What a step of a delivery does to its mark, to the guard and to the clock. -/
theorem Advance.effect {ι : Type} {setting : Setting} {i : ι} {intake : Intake}
    {progress progress' : Progress} {s s' : Shared} {move : Move ι}
    (hone : Guard.OneEach s.guard.entries)
    (h : Advance setting i intake progress s move progress' s') :
    (progress'.mark? = progress.mark? ∧ s.Tidied s' ∧ move.LeavesMarks) ∨
      (progress.mark? = none ∧ progress'.mark? = some s.instant ∧
        s.guard.isLive s.instant intake.id = false ∧ s'.instant = s.instant ∧
        s'.guard = s.guard.mark s.instant intake.id ∧ move = .committed i intake.id) ∨
      ∃ marked, progress.mark? = some marked ∧ progress'.mark? = none ∧
        s'.instant = s.instant ∧ s'.guard = s.guard.forget intake.id ∧
        move = .withdrawn i marked s.instant := by
  cases h with
  | drop h => exact .inl ⟨rfl, (Delivery.check_tidied hone h).measure _, trivial⟩
  | settle h => exact .inl ⟨rfl, Delivery.check_tidied hone h, trivial⟩
  | ask h => exact .inl ⟨rfl, Delivery.check_tidied hone h, trivial⟩
  | reply _ h => exact .inl ⟨rfl, Delivery.answer_tidied h, trivial⟩
  | commit h =>
    obtain ⟨hlive, hguard, hinstant, -⟩ := Delivery.of_commit_some h
    exact .inr (.inl ⟨rfl, rfl, hlive, hinstant, hguard, rfl⟩)
  | forgo h => exact .inl ⟨rfl, (Delivery.of_commit_none h).2.measure _, trivial⟩
  | publish => exact .inl ⟨rfl, .of_eq rfl rfl, trivial⟩
  | refuse => exact .inl ⟨rfl, .of_eq rfl rfl, trivial⟩
  | accept => exact .inl ⟨rfl, Delivery.accept_tidied .., trivial⟩
  | withdraw => exact .inr (.inr ⟨_, rfl, rfl, rfl, rfl, rfl⟩)
  | retry => exact .inl ⟨rfl, .of_eq rfl rfl, trivial⟩

/-- The id and the instant of the mark that a delivery holds. -/
def Passage.mark? (passage : Passage) : Option Mark :=
  passage.progress.mark?.map fun marked => (passage.intake.id, marked)

namespace Traffic

variable {ι : Type} [DecidableEq ι] {setting : Setting}

/-- The marks that the deliveries hold. -/
def marks (t : Traffic ι) (i : ι) : Option Mark := (t.passages i).bind Passage.mark?

/-- When a delivery goes on, only its own mark may change. -/
@[simp] theorem marks_put (t : Traffic ι) (i : ι) (passage : Passage) (s : Shared) :
    (t.put i passage s).marks = Function.update t.marks i passage.mark? := by
  funext j
  by_cases h : j = i
  · subst h
    simp [marks, put]
  · simp [marks, put, h]

/-- A step as the guard sees it. -/
inductive Effect (t : Traffic ι) (move : Move ι) (t' : Traffic ι) : Prop
  /-- No mark changes hands; expired entries may be dropped, and time may pass. -/
  | tidy (hmarks : t'.marks = t.marks) (hclock : t.shared.instant ≤ t'.shared.instant)
      (hguard : Guard.Tidied t.shared.instant t.shared.guard t'.shared.guard)
      (hmove : move.LeavesMarks)
  /-- A delivery without a mark marks an id that is not live. -/
  | mark (i : ι) (id : String) (hnone : t.marks i = none)
      (hmarks : t'.marks = Function.update t.marks i (some (id, t.shared.instant)))
      (hlive : t.shared.guard.isLive t.shared.instant id = false)
      (hclock : t'.shared.instant = t.shared.instant)
      (hguard : t'.shared.guard = t.shared.guard.mark t.shared.instant id)
      (hmove : move = .committed i id)
  /-- A delivery forgets the id of its mark. -/
  | forget (i : ι) (id : String) (marked : Instant) (hheld : t.marks i = some (id, marked))
      (hmarks : t'.marks = Function.update t.marks i none)
      (hclock : t'.shared.instant = t.shared.instant)
      (hguard : t'.shared.guard = t.shared.guard.forget id)
      (hmove : move = .withdrawn i marked t.shared.instant)

/-- Everything that a step can do to the guard, the marks and the clock. -/
theorem Step.effect {t t' : Traffic ι} {move : Move ι}
    (hone : Guard.OneEach t.shared.guard.entries) (h : Step setting t move t') :
    Effect t move t' := by
  cases h with
  | @enter i intake hnew =>
    refine .tidy ?_ (Nat.le_refl _) (Guard.Tidied.refl _ _) trivial
    have hnone : t.marks i = none := by simp [marks, hnew]
    rw [marks_put]
    exact Function.update_eq_self_iff.mpr hnone.symm
  | @advance i intake progress progress' _ s hpassage hadvance =>
    have hmark : t.marks i = progress.mark?.map fun marked => (intake.id, marked) := by
      simp [marks, hpassage, Passage.mark?]
    rcases hadvance.effect hone with ⟨hsame, htidy, hmove⟩ |
      ⟨hnone, hsome, hlive, hclock, hguard, hmove⟩ | ⟨marked, hsome, hnone, hclock, hguard, hmove⟩
    · refine .tidy ?_ (Nat.le_of_eq htidy.instant.symm) htidy.guard hmove
      rw [marks_put]
      refine Function.update_eq_self_iff.mpr ?_
      rw [hmark, ← hsame]
      rfl
    · refine .mark i intake.id (by simp [hmark, hnone]) ?_ hlive hclock hguard hmove
      simp [Passage.mark?, hsome]
    · refine .forget i intake.id marked (by simp [hmark, hsome]) ?_ hclock hguard hmove
      simp [Passage.mark?, hnone]
  | ambient hambient =>
    cases hambient with
    | sweep => exact .tidy rfl (Nat.le_refl _) (Guard.tidied_sweep _ _) trivial
    | elapse instant wall hle => exact .tidy rfl hle (Guard.Tidied.refl _ _) trivial
    | measure change => exact .tidy rfl (Nat.le_refl _) (Guard.Tidied.refl _ _) trivial

/-- After one delivery's mark has changed, a mark is the new one, or another delivery's. -/
theorem update_marks_eq_some {m : ι → Option Mark} {i j : ι} {new : Option Mark} {mark : Mark} :
    Function.update m i new j = some mark ↔
      (j = i ∧ new = some mark) ∨ (j ≠ i ∧ m j = some mark) := by
  by_cases h : j = i
  · subst h
    simp
  · simp [h]

/-! ## Entries and holders -/

/-- The guard of some traffic: no id has two entries, and every entry is a mark that a delivery
holds. -/
structure Held (t : Traffic ι) : Prop where
  oneEach : Guard.OneEach t.shared.guard.entries
  holder : ∀ entry ∈ t.shared.guard.entries, ∃ i, t.marks i = some entry

/-- Every step keeps each entry of the guard in the hands of a delivery: one that forgets an id
leaves no entry of it. -/
theorem Held.step {t t' : Traffic ι} {move : Move ι} (h : t.Held) (hstep : Step setting t move t') :
    t'.Held := by
  cases hstep.effect h.oneEach with
  | tidy hmarks _ hguard _ =>
    refine ⟨hguard.oneEach h.oneEach, fun entry hmem => ?_⟩
    rw [hmarks]
    exact h.holder entry (hguard.sublist.subset hmem)
  | mark i id hnone hmarks _ _ hguard _ =>
    refine ⟨hguard ▸ Guard.oneEach_mark h.oneEach _ _, fun entry hmem => ?_⟩
    rw [hguard] at hmem
    rcases Guard.mem_withMark.mp ((Guard.mark_sublist ..).subset hmem) with ⟨hold, -⟩ | rfl
    · obtain ⟨j, hj⟩ := h.holder entry hold
      have hne : j ≠ i := by
        rintro rfl
        simp [hnone] at hj
      exact ⟨j, by rw [hmarks, Function.update_of_ne hne, hj]⟩
    · exact ⟨i, by rw [hmarks, Function.update_self]⟩
  | forget i id marked hheld hmarks _ hguard _ =>
    refine ⟨hguard ▸ Guard.oneEach_forget h.oneEach _, fun entry hmem => ?_⟩
    rw [hguard] at hmem
    obtain ⟨hold, hother⟩ := Guard.mem_dropEntry.mp hmem
    obtain ⟨j, hj⟩ := h.holder entry hold
    have hne : j ≠ i := by
      rintro rfl
      obtain rfl : (id, marked) = entry := by simpa [hheld] using hj
      exact hother rfl
    exact ⟨j, by rw [hmarks, update_marks_eq_some]; exact .inr ⟨hne, hj⟩⟩

/-- In every run from an empty guard, every entry is a mark that a delivery holds. -/
theorem Run.held {ttl maxEntries : Nat} {s : Shared} {moves : List (Move ι)} {t : Traffic ι}
    (h : Run setting (.start ttl maxEntries s) moves t) : t.Held := by
  induction h with
  | nil => exact ⟨List.nodup_nil, by simp [start, Guard.new]⟩
  | snoc _ hstep ih => exact ih.step hstep

end Traffic

end MarketFeed
