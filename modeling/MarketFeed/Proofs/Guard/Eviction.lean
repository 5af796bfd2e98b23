import MarketFeed.Proofs.Guard.Calls

/-!
# Eviction finds its entry in the queue

Eviction takes positions off the front of the queue and drops the entry of the first one that
counts. It finds one as long as each entry has its position in the queue, and this needs neither
a clock that runs forward nor marks that differ: dropping entries, taking off positions that do
not count and putting a new position at the end all keep it. As no call adds more than one
entry, one position that counts is enough, and the guard never holds more than it may.
-/

namespace MarketFeed.Guard

/-! ## Entries and their positions -/

/-- No id has two entries, and each entry has its position in the queue. -/
structure Placed (entries order : List Mark) : Prop where
  oneEach : OneEach entries
  placed : ∀ entry ∈ entries, entry ∈ order

/-- Dropping the entry of an id that has one leaves fewer entries. -/
theorem length_dropEntry_lt {entries : List Mark} {entry : Mark} (h : entry ∈ entries) :
    (dropEntry entries entry.1).length < entries.length := by
  refine List.length_filter_lt_length_iff_exists.mpr ⟨entry, h, ?_⟩
  simp

/-- With the mark of an id there is one entry too many at most. -/
theorem length_withMark_le {g : Guard} (hfew : g.entries.length ≤ g.capacity) (now : Instant)
    (id : String) : (withMark g.entries now id).length ≤ g.capacity + 1 := by
  have hothers : (dropEntry g.entries id).length ≤ g.entries.length := List.length_filter_le ..
  simp only [withMark, List.length_append, List.length_singleton]
  omega

/-- If the queue has a position that counts, it has a first one. -/
theorem exists_first_position {entries order : List Mark} (h : ∃ entry ∈ entries, entry ∈ order) :
    ∃ before position after, order = before ++ position :: after ∧ position ∈ entries ∧
      ∀ earlier ∈ before, earlier ∉ entries := by
  obtain ⟨entry, hentry, hplaced⟩ := h
  have hfound : (order.find? fun position => decide (position ∈ entries)).isSome :=
    List.find?_isSome.mpr ⟨entry, hplaced, decide_eq_true hentry⟩
  obtain ⟨position, hfirst⟩ := Option.isSome_iff_exists.mp hfound
  obtain ⟨hmem, before, after, hsplit, hbefore⟩ := List.find?_eq_some_iff_append.mp hfirst
  exact ⟨before, position, after, hsplit, of_decide_eq_true hmem, by simpa using hbefore⟩

/-- With one entry too many, eviction drops the entry of the first position that counts, and takes
off the positions up to this one. -/
theorem evict_append_cons {capacity : Nat} {entries before after : List Mark} {position : Mark}
    (hone : OneEach entries) (hlength : entries.length = capacity + 1)
    (hmem : position ∈ entries) (hbefore : ∀ earlier ∈ before, earlier ∉ entries) :
    evict capacity entries (before ++ position :: after) =
      (dropEntry entries position.1, after) := by
  have hmany : ¬ entries.length ≤ capacity := by omega
  induction before with
  | nil =>
    have hlast : (dropEntry entries position.1).length ≤ capacity := by
      have := length_dropEntry_lt hmem
      omega
    rw [List.nil_append, evict, if_neg hmany, if_pos ((counts_iff hone position).mpr hmem),
      evict_of_length_le after hlast]
  | cons earlier before ih =>
    have hskipped : ¬ counts entries earlier = true := fun hcounts =>
      hbefore earlier List.mem_cons_self ((counts_iff hone earlier).mp hcounts)
    rw [List.cons_append, evict, if_neg hmany, if_neg hskipped]
    exact ih fun other hother => hbefore other (List.mem_cons_of_mem _ hother)

namespace Placed

variable {entries order : List Mark}

/-- Entries that are left when some are dropped still have their positions. -/
theorem filter (h : Placed entries order) (select : Mark → Bool) :
    Placed (entries.filter select) order :=
  ⟨h.oneEach.filter select, fun entry hmem => h.placed entry (List.mem_filter.mp hmem).1⟩

/-- Positions that do not count are not needed. -/
theorem compact (h : Placed entries order) : Placed entries (order.filter (counts entries)) :=
  ⟨h.oneEach, fun entry hmem =>
    List.mem_filter.mpr ⟨h.placed entry hmem, (counts_iff h.oneEach entry).mpr hmem⟩⟩

/-- A new mark has its position at the end. -/
theorem withMark (h : Placed entries order) (now : Instant) (id : String) :
    Placed (withMark entries now id) (order ++ [(id, now)]) where
  oneEach := oneEach_withMark h.oneEach now id
  placed := by
    intro entry hmem
    rcases mem_withMark.mp hmem with ⟨hold, -⟩ | rfl
    · exact List.mem_append_left _ (h.placed entry hold)
    · exact List.mem_append_right _ (List.mem_singleton_self _)

/-- When the entry of the first position that counts is dropped, the others have their positions
behind it. -/
theorem behind {before after : List Mark} {position : Mark}
    (h : Placed entries (before ++ position :: after))
    (hbefore : ∀ earlier ∈ before, earlier ∉ entries) :
    Placed (dropEntry entries position.1) after := by
  refine ⟨h.oneEach.filter _, fun entry hentry => ?_⟩
  obtain ⟨hold, hne⟩ := mem_dropEntry.mp hentry
  rcases List.mem_append.mp (h.placed entry hold) with hearlier | hlater
  · exact absurd hold (hbefore entry hearlier)
  · exact (List.mem_cons.mp hlater).resolve_left fun heq => hne (heq ▸ rfl)

/-- Evicting one entry at most leaves all as it is, or drops the entry of the first position that
counts. -/
theorem evict_eq {capacity : Nat} (h : Placed entries order)
    (hlength : entries.length ≤ capacity + 1) :
    (entries.length ≤ capacity ∧ evict capacity entries order = (entries, order)) ∨
      (capacity < entries.length ∧ ∃ before position after, order = before ++ position :: after ∧
        position ∈ entries ∧ (∀ earlier ∈ before, earlier ∉ entries) ∧
        evict capacity entries order = (dropEntry entries position.1, after)) := by
  by_cases hfew : entries.length ≤ capacity
  · exact .inl ⟨hfew, evict_of_length_le order hfew⟩
  · have hsome : 0 < entries.length := by omega
    obtain ⟨entry, hentry⟩ := List.exists_mem_of_length_pos hsome
    obtain ⟨before, position, after, rfl, hmem, hbefore⟩ :=
      exists_first_position ⟨entry, hentry, h.placed entry hentry⟩
    exact .inr ⟨by omega, before, position, after, rfl, hmem, hbefore,
      evict_append_cons h.oneEach (by omega) hmem hbefore⟩

/-- Evicting one entry at most leaves no more than may be held, each with its position. -/
theorem evict {capacity : Nat} (h : Placed entries order)
    (hlength : entries.length ≤ capacity + 1) :
    (Guard.evict capacity entries order).1.length ≤ capacity ∧
      Placed (Guard.evict capacity entries order).1 (Guard.evict capacity entries order).2 := by
  rcases h.evict_eq hlength with
    ⟨hfew, hleft⟩ | ⟨-, before, position, after, rfl, hmem, hbefore, hleft⟩
  · rw [hleft]
    exact ⟨hfew, h⟩
  · rw [hleft]
    have hfewer := length_dropEntry_lt hmem
    exact ⟨by dsimp only; omega, h.behind hbefore⟩

end Placed

/-! ## Guards within their bound -/

/-- The guard holds no more than it may, and each entry has its position in the queue. -/
structure Bounded (g : Guard) : Prop where
  few : g.entries.length ≤ g.capacity
  placed : Placed g.entries g.order

namespace Bounded

variable {g : Guard}

/-- A new guard is within its bound. -/
theorem of_new (ttl maxEntries : Nat) : (new ttl maxEntries).Bounded :=
  ⟨Nat.zero_le _, List.nodup_nil, nofun⟩

/-- Dropping entries, with or without their positions, keeps a guard within its bound. -/
theorem filter (h : g.Bounded) (select : Mark → Bool) {order : List Mark}
    (horder : order = g.order ∨ order = g.order.filter (counts (g.entries.filter select))) :
    Bounded { g with entries := g.entries.filter select, order := order } where
  few := Nat.le_trans (List.length_filter_le ..) h.few
  placed := by
    rcases horder with rfl | rfl
    · exact h.placed.filter select
    · exact (h.placed.filter select).compact

/-- A mark keeps a guard within its bound. -/
theorem mark (h : g.Bounded) (now : Instant) (id : String) : (g.mark now id).Bounded := by
  obtain ⟨hfew, hplaced⟩ :=
    (h.placed.withMark now id).evict (length_withMark_le h.few now id)
  refine ⟨hfew, ?_⟩
  unfold Guard.mark
  dsimp only
  split
  · exact hplaced.compact
  · exact hplaced

/-- A guard stays within its bound over each call. -/
theorem step (h : g.Bounded) {now : Instant} {g' : Guard} {mark? : Option Mark}
    (heffect : Effect now g mark? g') : g'.Bounded := by
  cases heffect with
  | keep => exact h
  | drop select order horder => exact h.filter select horder
  | mark id => exact h.mark now id

/-- A guard stays within its bound over calls in a row, whatever their instants. -/
theorem after (h : g.Bounded) (calls : List TimedCall) : (g.after calls).Bounded := by
  induction calls generalizing g with
  | nil => exact h
  | cons call rest ih => exact ih (h.step (perform_effect call.2 call.1 g))

end Bounded

end MarketFeed.Guard
