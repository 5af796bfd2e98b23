import MarketFeed.Proofs.Guard.Calls

/-!
# The fresh entries of the guard

Over a clock that never goes back, the entries of a guard in order are also in the order of their
instants, so the fresh ones are the last. Eviction starts at the other end. Which fresh entries
a mark leaves can therefore be told from the fresh entries before it, no matter how many expired
ones the guard still holds.
-/

namespace MarketFeed.Guard

open Rehearsal

/-- The entries that are fresh at an instant. -/
def fresh (g : Guard) (now : Instant) : List Mark :=
  g.entries.filter fun entry => g.isFresh now entry.2

/-- What is fresh later was fresh before. -/
theorem isFresh_of_later {g : Guard} {now later marked : Instant} (hle : now ≤ later)
    (h : g.isFresh later marked = true) : g.isFresh now marked = true := by
  have hage : now - marked ≤ later - marked := Nat.sub_le_sub_right hle marked
  exact decide_eq_true (Nat.lt_of_le_of_lt hage (of_decide_eq_true h))

/-- What was marked later is fresh longer. -/
theorem isFresh_of_marked_later {g : Guard} {now a b : Instant} (hle : a ≤ b)
    (h : g.isFresh now a = true) : g.isFresh now b = true := by
  have hage : now - b ≤ now - a := Nat.sub_le_sub_left hle now
  exact decide_eq_true (Nat.lt_of_le_of_lt hage (of_decide_eq_true h))

/-- The live ids are those of the fresh entries. -/
theorem isLive_iff_fresh {g : Guard} (hone : OneEach g.entries) (now : Instant) (id : String) :
    g.isLive now id = true ↔ ∃ entry ∈ g.fresh now, entry.1 = id := by
  constructor
  · intro h
    obtain ⟨marked, hmem, hfresh⟩ := exists_fresh_of_isLive h
    exact ⟨(id, marked), List.mem_filter.mpr ⟨hmem, hfresh⟩, rfl⟩
  · rintro ⟨⟨_, marked⟩, hentry, rfl⟩
    obtain ⟨hmem, hfresh⟩ := List.mem_filter.mp hentry
    exact isLive_of_fresh hone hmem hfresh

/-! ## Dropping entries -/

/-- Dropping entries that have expired leaves the fresh ones. -/
theorem fresh_filter {g : Guard} {later : Instant} {select : Mark → Bool} {order : List Mark}
    (h : ∀ entry ∈ g.fresh later, select entry = true) :
    fresh { g with entries := g.entries.filter select, order := order } later = g.fresh later := by
  simp only [fresh, List.filter_filter]
  refine List.filter_congr fun entry hmem => ?_
  change (g.isFresh later entry.2 && select entry) = g.isFresh later entry.2
  cases hfresh : g.isFresh later entry.2 with
  | true => exact h entry (List.mem_filter.mpr ⟨hmem, hfresh⟩)
  | false => rfl

/-- Sweeping leaves the entries that are fresh then or later. -/
theorem fresh_sweep (g : Guard) {now later : Instant} (hle : now ≤ later) :
    (g.sweep now).2.fresh later = g.fresh later :=
  fresh_filter fun _ hentry => isFresh_of_later hle (List.mem_filter.mp hentry).2

/-- Asking for an id that is not live leaves the entries that are fresh then or later. -/
theorem fresh_dropEntry_of_not_live {g : Guard} (hone : OneEach g.entries) {now later : Instant}
    (hle : now ≤ later) {id : String} (hlive : ¬ g.isLive now id = true) :
    (g.forget id).fresh later = g.fresh later := by
  refine fresh_filter fun entry hentry => ?_
  obtain ⟨hmem, hfresh⟩ := List.mem_filter.mp hentry
  rw [decide_eq_true_eq]
  rintro rfl
  exact hlive (isLive_of_fresh hone hmem (isFresh_of_later hle hfresh))

/-- Forgetting an id drops its fresh entry. -/
theorem fresh_forget (g : Guard) (id : String) (later : Instant) :
    (g.forget id).fresh later = dropEntry (g.fresh later) id := by
  simp only [fresh, forget, dropEntry, List.filter_filter, Bool.and_comm]
  rfl

/-! ## Setting marks -/

/-- The entries are in the order of their instants, none of which is still to come. -/
structure Timely (now : Instant) (g : Guard) : Prop where
  sorted : g.entries.Pairwise fun a b => a.2 ≤ b.2
  past : ∀ entry ∈ g.entries, entry.2 ≤ now

namespace Timely

variable {now later : Instant} {g : Guard}

/-- A new guard is timely. -/
theorem of_new (ttl maxEntries : Nat) (now : Instant) : (new ttl maxEntries).Timely now :=
  ⟨List.Pairwise.nil, by simp [new]⟩

/-- Time may pass. -/
theorem mono (h : g.Timely now) (hle : now ≤ later) : g.Timely later :=
  ⟨h.sorted, fun entry hmem => Nat.le_trans (h.past entry hmem) hle⟩

/-- A guard stays timely when it loses entries. -/
theorem of_sublist (h : g.Timely now) {g' : Guard} (hsub : g'.entries.Sublist g.entries) :
    g'.Timely now :=
  ⟨h.sorted.sublist hsub, fun entry hmem => h.past entry (hsub.subset hmem)⟩

/-- With a mark set now, the entries are still in the order of their instants. -/
theorem sorted_withMark (h : g.Timely now) (id : String) :
    (withMark g.entries now id).Pairwise fun a b => a.2 ≤ b.2 := by
  refine List.pairwise_append.mpr ⟨h.sorted.sublist List.filter_sublist, by simp, ?_⟩
  intro entry hentry last hlast
  obtain rfl := List.mem_singleton.mp hlast
  exact h.past entry (mem_dropEntry.mp hentry).1

/-- A guard stays timely when a mark is set now. -/
theorem mark (h : g.Timely now) (id : String) : (g.mark now id).Timely now := by
  have hsub := mark_sublist g now id
  refine ⟨(h.sorted_withMark id).sublist hsub, fun entry hentry => ?_⟩
  rcases mem_withMark.mp (hsub.subset hentry) with ⟨hold, -⟩ | rfl
  · exact h.past entry hold
  · exact Nat.le_refl _

/-- A guard stays timely over each call. -/
theorem step (h : g.Timely now) {g' : Guard} {mark? : Option Mark}
    (heffect : Effect now g mark? g') : g'.Timely now := by
  cases heffect with
  | keep => exact h
  | drop select order _ => exact h.of_sublist List.filter_sublist
  | mark id => exact h.mark id

end Timely

/-- The fresh entries with a new mark, before any is evicted. -/
def freshWith (g : Guard) (now : Instant) (id : String) (later : Instant) : List Mark :=
  (withMark g.entries now id).filter fun entry => g.isFresh later entry.2

/-- The fresh entries with a new mark are those of the other ids and, if it is fresh, the mark. -/
theorem freshWith_eq (g : Guard) (now : Instant) (id : String) (later : Instant) :
    g.freshWith now id later =
      dropEntry (g.fresh later) id ++
        [(id, now)].filter fun entry => g.isFresh later entry.2 := by
  simp only [freshWith, withMark, List.filter_append, fresh, dropEntry, List.filter_filter,
    Bool.and_comm]

/-- The fresh entries after a mark are the newest of those before and the mark itself. -/
theorem fresh_mark {marks : List Mark} {g : Guard} {now : Instant} (h : g.Orderly marks)
    (htimely : g.Timely now) {id : String} (hnew : (id, now) ∉ marks) (later : Instant) :
    (g.mark now id).fresh later = newest g.capacity (g.freshWith now id later) := by
  have hlate : (withMark g.entries now id).Pairwise fun a b =>
      g.isFresh later a.2 → g.isFresh later b.2 :=
    (htimely.sorted_withMark id).imp fun hle => isFresh_of_marked_later hle
  rw [freshWith, ← filter_newest _ hlate, ← h.mark_entries hnew]
  rfl

/-- A mark evicts a fresh entry only if with it there are more fresh entries than the guard may
hold. -/
theorem lt_length_freshWith {marks : List Mark} {g : Guard} {now : Instant} (h : g.Orderly marks)
    (htimely : g.Timely now) {id : String} (hnew : (id, now) ∉ marks) {entry : Mark}
    (hentry : entry ∈ g.fresh now) (hother : entry.1 ≠ id)
    (hgone : entry ∉ (g.mark now id).entries) :
    g.capacity < (g.freshWith now id now).length := by
  by_contra hfew
  have hfresh := fresh_mark h htimely hnew now
  rw [newest_of_length_le (Nat.not_lt.mp hfew), freshWith_eq] at hfresh
  have hkept : entry ∈ (g.mark now id).fresh now := by
    rw [hfresh]
    exact List.mem_append_left _ (mem_dropEntry.mpr ⟨hentry, hother⟩)
  exact hgone (List.mem_filter.mp hkept).1

end MarketFeed.Guard
