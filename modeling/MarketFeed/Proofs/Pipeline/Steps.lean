import MarketFeed.Pipeline.Delivery
import MarketFeed.Proofs.Guard.Entries

/-!
# What each step of a delivery does

Of all that deliveries share, the guard is what makes them depend on each other. A step
touches it in one of three ways: asking may drop an expired entry, committing marks an id that
is not live, and withdrawing forgets the id. No step moves the clock.

The verdict that a delivery comes to is settled by what its message is taken for and by what
the store replies, never by the shared state.
-/

namespace MarketFeed

namespace Shared

/-- Asking for a live id answers yes and changes nothing. -/
theorem seen_of_live {s : Shared} {id : String} (h : s.guard.isLive s.instant id = true) :
    s.seen id = (true, s) := by
  simp [Shared.seen, Guard.seen, h]

/-- Asking for an id that is not live answers no and tidies the guard. -/
theorem seen_of_not_live {s : Shared} {id : String} (h : s.guard.isLive s.instant id = false) :
    s.seen id = (false, { s with guard := (s.guard.seen s.instant id).2 }) := by
  simp [Shared.seen, Guard.seen, h]

/-- A live id is not marked again. -/
theorem tryMark_of_live {s : Shared} {id : String} (h : s.guard.isLive s.instant id = true) :
    s.tryMark id = (false, s) := by
  simp [Shared.tryMark, Guard.tryMark, h]

/-- An id that is not live is marked now. -/
theorem tryMark_of_not_live {s : Shared} {id : String} (h : s.guard.isLive s.instant id = false) :
    s.tryMark id = (true, { s with guard := s.guard.mark s.instant id }) := by
  simp [Shared.tryMark, Guard.tryMark, h]

/-- The clock stands still, and the guard is left alone or tidied. -/
structure Tidied (s s' : Shared) : Prop where
  instant : s'.instant = s.instant
  guard : Guard.Tidied s.instant s.guard s'.guard

/-- A state with the same guard and the same clock is tidy. -/
theorem Tidied.of_eq {s s' : Shared} (hguard : s'.guard = s.guard)
    (hinstant : s'.instant = s.instant) : s.Tidied s' :=
  ⟨hinstant, hguard ▸ Guard.Tidied.refl _ _⟩

/-- A tidy state stays tidy when something is measured. -/
theorem Tidied.measure {s s' : Shared} (h : s.Tidied s') (change : Ledger → Ledger) :
    s.Tidied (s'.measure change) := ⟨h.instant, h.guard⟩

end Shared

namespace Delivery

/-! ## The guard and the clock -/

/-- Assessing an event leaves the guard and the clock alone. -/
theorem assess_frame (d : Delivery) (event : RawEvent) (s : Shared) :
    (d.assess event s).2.guard = s.guard ∧ (d.assess event s).2.instant = s.instant := by
  unfold assess
  dsimp only
  split
  · exact ⟨rfl, rfl⟩
  · split
    · exact ⟨rfl, rfl⟩
    · split <;> exact ⟨rfl, rfl⟩

/-- Assessing an event never drops it. -/
theorem assess_ne_drop (d : Delivery) (event : RawEvent) (s : Shared) :
    (d.assess event s).1 ≠ .drop := by
  unfold assess
  dsimp only
  split
  · simp
  · split
    · simp
    · split <;> simp

/-- A live id is dropped, and nothing but a state is logged. -/
theorem check_of_live {d : Delivery} {s : Shared} (h : s.guard.isLive s.instant d.id = true) :
    (d.check s).1 = .drop ∧ (d.check s).2.guard = s.guard ∧ (d.check s).2.instant = s.instant := by
  unfold check
  split
  · rw [Shared.seen_of_live (by exact h)]
    exact ⟨rfl, rfl, rfl⟩
  · rw [Shared.seen_of_live h]
    exact ⟨rfl, rfl, rfl⟩

/-- An id that is not live is not dropped, and the guard is tidied. -/
theorem check_of_not_live {d : Delivery} {s : Shared} (h : s.guard.isLive s.instant d.id = false) :
    (d.check s).1 ≠ .drop ∧ (d.check s).2.guard = (s.guard.seen s.instant d.id).2 ∧
      (d.check s).2.instant = s.instant := by
  unfold check
  split
  · rw [Shared.seen_of_not_live (by exact h)]
    exact ⟨assess_ne_drop d _ _, assess_frame d _ _⟩
  · rw [Shared.seen_of_not_live h]
    exact ⟨by simp, rfl, rfl⟩

/-- A check drops a message exactly if its id is live. -/
theorem check_eq_drop_iff (d : Delivery) (s : Shared) :
    (d.check s).1 = .drop ↔ s.guard.isLive s.instant d.id = true := by
  cases h : s.guard.isLive s.instant d.id with
  | true => simp [(check_of_live h).1]
  | false => simp [(check_of_not_live h).1]

/-- A check tidies the guard at most. -/
theorem check_tidied {d : Delivery} {s s' : Shared} {course : Course}
    (hone : Guard.OneEach s.guard.entries) (h : d.check s = (course, s')) : s.Tidied s' := by
  obtain rfl : (d.check s).2 = s' := by rw [h]
  cases hlive : s.guard.isLive s.instant d.id with
  | true => exact .of_eq (check_of_live hlive).2.1 (check_of_live hlive).2.2
  | false =>
    obtain ⟨-, hguard, hinstant⟩ := check_of_not_live hlive
    exact ⟨hinstant, hguard ▸ Guard.tidied_seen hone _ _⟩

/-- The reply of the store is measured; the guard and the clock are left alone. -/
theorem answer_frame {d : Delivery} {event : RawEvent} {quote : Quote} {since : Instant}
    {reply : LookupAnswer} {verdict : Verdict} {s s' : Shared}
    (h : d.answer event quote since reply s = (verdict, s')) :
    s'.guard = s.guard ∧ s'.instant = s.instant := by
  unfold answer at h
  dsimp only at h
  split at h <;> (cases h; exact ⟨rfl, rfl⟩)

/-- Taking the reply of the store keeps the state tidy. -/
theorem answer_tidied {d : Delivery} {event : RawEvent} {quote : Quote} {since : Instant}
    {reply : LookupAnswer} {verdict : Verdict} {s s' : Shared}
    (h : d.answer event quote since reply s = (verdict, s')) : s.Tidied s' :=
  .of_eq (answer_frame h).1 (answer_frame h).2

/-- Making a record leaves the guard and the clock alone. -/
theorem record_frame (d : Delivery) (s : Shared) (verdict : Verdict) :
    (d.record s verdict).2.guard = s.guard ∧ (d.record s verdict).2.instant = s.instant := by
  cases verdict <;> exact ⟨rfl, rfl⟩

/-- Committing a live id puts nothing out. -/
theorem commit_of_live {d : Delivery} {verdict : Verdict} {s : Shared}
    (h : s.guard.isLive s.instant d.id = true) :
    d.commit verdict s = (none, s.trace d.id .dedupCheck) := by
  unfold commit
  rw [Shared.tryMark_of_live (by exact h)]

/-- Committing an id that is not live marks it and makes the record of the verdict. -/
theorem commit_of_not_live {d : Delivery} {verdict : Verdict} {s : Shared}
    (h : s.guard.isLive s.instant d.id = false) :
    d.commit verdict s =
      (some (d.record s verdict).1,
        (d.record { s.trace d.id .dedupCheck with guard := s.guard.mark s.instant d.id }
          verdict).2) := by
  unfold commit
  rw [Shared.tryMark_of_not_live (by exact h)]
  cases verdict <;> rfl

/-- A commit that puts nothing out met a live id, and changed neither the guard nor the clock. -/
theorem of_commit_none {d : Delivery} {verdict : Verdict} {s s' : Shared}
    (h : d.commit verdict s = (none, s')) :
    s.guard.isLive s.instant d.id = true ∧ s.Tidied s' := by
  cases hlive : s.guard.isLive s.instant d.id with
  | true =>
    rw [commit_of_live hlive] at h
    cases h
    exact ⟨rfl, .of_eq rfl rfl⟩
  | false =>
    rw [commit_of_not_live hlive] at h
    cases h

/-- A commit that puts something out met an id that was not live, marked it, and made the record
of its verdict. -/
theorem of_commit_some {d : Delivery} {verdict : Verdict} {output : Output} {s s' : Shared}
    (h : d.commit verdict s = (some output, s')) :
    s.guard.isLive s.instant d.id = false ∧ s'.guard = s.guard.mark s.instant d.id ∧
      s'.instant = s.instant ∧ output = (d.record s verdict).1 := by
  cases hlive : s.guard.isLive s.instant d.id with
  | true =>
    rw [commit_of_live hlive] at h
    cases h
  | false =>
    rw [commit_of_not_live hlive] at h
    cases h
    exact ⟨rfl, (record_frame ..).1, (record_frame ..).2, rfl⟩

/-- Counting an accepted output leaves the guard and the clock alone. -/
theorem accept_tidied (d : Delivery) (verdict : Verdict) (output : Output) (s : Shared) :
    s.Tidied (d.accept verdict output s) := by
  cases verdict <;> exact .of_eq rfl rfl

/-! ## The ledger -/

/-- Assessing an event measures nothing. -/
theorem assess_ledger (d : Delivery) (event : RawEvent) (s : Shared) :
    (d.assess event s).2.ledger = s.ledger := by
  unfold assess
  dsimp only
  split
  · rfl
  · split
    · rfl
    · split <;> rfl

/-- A check measures nothing. -/
theorem check_ledger {d : Delivery} {s s' : Shared} {course : Course}
    (h : d.check s = (course, s')) : s'.ledger = s.ledger := by
  obtain rfl : (d.check s).2 = s' := by rw [h]
  unfold check Shared.seen
  split
  · dsimp only
    split
    · rename_i hseen
      exact congrArg (fun answer => answer.2.ledger) hseen.symm
    · rename_i hseen
      rw [assess_ledger]
      exact congrArg (fun answer => answer.2.ledger) hseen.symm
  · dsimp only
    split <;> (rename_i hseen; exact congrArg (fun answer => answer.2.ledger) hseen.symm)

/-- The reply of the store is timed and counted. -/
theorem answer_ledger {d : Delivery} {event : RawEvent} {quote : Quote} {since : Instant}
    {reply : LookupAnswer} {verdict : Verdict} {s s' : Shared}
    (h : d.answer event quote since reply s = (verdict, s')) :
    s'.ledger = (s.ledger.record .backfillDuration (s.instant - since)).count
      (.backfillLookups (lookupResult reply)) := by
  unfold answer at h
  dsimp only at h
  split at h <;> (cases h; rfl)

/-- A commit measures nothing. -/
theorem commit_ledger {d : Delivery} {verdict : Verdict} {output? : Option Output} {s s' : Shared}
    (h : d.commit verdict s = (output?, s')) : s'.ledger = s.ledger := by
  obtain rfl : (d.commit verdict s).2 = s' := by rw [h]
  cases hlive : s.guard.isLive s.instant d.id with
  | true => simp [commit_of_live hlive, Shared.trace]
  | false =>
    rw [commit_of_not_live hlive]
    cases verdict <;> rfl

end Delivery

end MarketFeed
