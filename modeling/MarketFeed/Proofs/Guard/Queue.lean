import MarketFeed.Proofs.Guard.Entries

/-!
# The queue of positions lists the entries

The guard does not search for its oldest entry. It takes positions off the front of its queue
until one counts, and drops the entry of that one. This finds the oldest entry as long as the
positions that count are, from front to back, the entries in the order of their marks.

Forgetting, expiry and marking again leave positions behind that no longer count. Such a
position would count once more if its id were marked again at the very same instant. Where that
never happens, the queue lists the entries after every operation, and marking keeps the newest
entries, as many as the guard may hold.
-/

namespace MarketFeed.Guard

/-- The last entries, as many as may be held. -/
def newest (capacity : Nat) (entries : List Mark) : List Mark :=
  entries.drop (entries.length - capacity)

/-- Not more entries are kept than may be held. -/
theorem length_newest_le (capacity : Nat) (entries : List Mark) :
    (newest capacity entries).length ≤ capacity := by
  simp only [newest, List.length_drop]
  omega

/-- All entries are kept if there are no more than may be held. -/
theorem newest_of_length_le {capacity : Nat} {entries : List Mark}
    (h : entries.length ≤ capacity) : newest capacity entries = entries := by
  simp [newest, Nat.sub_eq_zero_of_le h]

/-- The first of too many entries is not kept. -/
theorem newest_cons {capacity : Nat} {entry : Mark} {rest : List Mark}
    (h : capacity < (entry :: rest).length) :
    newest capacity (entry :: rest) = newest capacity rest := by
  have hlength : (entry :: rest).length - capacity = (rest.length - capacity) + 1 := by
    rw [List.length_cons] at h ⊢
    omega
  rw [newest, hlength, List.drop_succ_cons, newest]

/-- Selecting among the newest entries is the same as selecting first, if all selected entries
are newer than the others. -/
theorem filter_newest (capacity : Nat) {select : Mark → Bool} {entries : List Mark}
    (hlate : entries.Pairwise fun a b => select a → select b) :
    (newest capacity entries).filter select = newest capacity (entries.filter select) := by
  induction entries with
  | nil => simp [newest]
  | cons entry rest ih =>
    obtain ⟨hfirst, hrest⟩ := List.pairwise_cons.mp hlate
    by_cases hfew : (entry :: rest).length ≤ capacity
    · have hfew' : ((entry :: rest).filter select).length ≤ capacity :=
        Nat.le_trans (List.length_filter_le ..) hfew
      rw [newest_of_length_le hfew, newest_of_length_le hfew']
    · have hmany := Nat.not_le.mp hfew
      rw [newest_cons hmany, ih hrest]
      by_cases hselect : select entry
      · have hall : rest.filter select = rest :=
          List.filter_eq_self.mpr fun later hlater => hfirst later hlater hselect
        rw [List.filter_cons_of_pos hselect, hall, newest_cons hmany]
      · rw [List.filter_cons_of_neg hselect]

/-! ## Positions that count -/

/-- If no id has two entries, the positions that count are those of the entries. -/
theorem counts_iff {entries : List Mark} (hone : OneEach entries) (position : Mark) :
    counts entries position = true ↔ position ∈ entries := by
  rw [counts, decide_eq_true_eq]
  exact ⟨mem_of_markedAt?, markedAt?_of_mem hone⟩

/-- Selecting entries gives no id a second one. -/
theorem OneEach.filter {entries : List Mark} (hone : OneEach entries) (select : Mark → Bool) :
    OneEach (entries.filter select) :=
  hone.sublist (List.filter_sublist.map _)

/-- The positions that count are, from front to back, the entries. -/
def Listed (entries order : List Mark) : Prop := order.filter (counts entries) = entries

namespace Listed

variable {entries order : List Mark}

/-- A queue lists the entries that are left when some are dropped. -/
theorem filter (h : Listed entries order) (hone : OneEach entries) (select : Mark → Bool) :
    Listed (entries.filter select) order := by
  have hcounts : counts (entries.filter select) = fun position =>
      select position && counts entries position := by
    funext position
    rw [Bool.eq_iff_iff, Bool.and_eq_true, counts_iff (hone.filter select), counts_iff hone,
      List.mem_filter, and_comm]
  calc order.filter (counts (entries.filter select))
      = (order.filter (counts entries)).filter select := by rw [hcounts, List.filter_filter]
    _ = entries.filter select := by rw [h]

/-- A queue lists the entries when the positions that do not count are removed. -/
theorem compact (h : Listed entries order) : Listed entries (order.filter (counts entries)) := by
  simpa [Listed, List.filter_filter] using h

/-- A queue lists the entries and a new mark, whose position is put at its end; the position must
not be in the queue yet. -/
theorem withMark (h : Listed entries order) (hone : OneEach entries) {now : Instant}
    {id : String} (hnew : (id, now) ∉ order) :
    Listed (withMark entries now id) (order ++ [(id, now)]) := by
  have hmarked := oneEach_withMark hone now id
  have hothers : OneEach (dropEntry entries id) := hone.filter _
  have hlast : counts (Guard.withMark entries now id) (id, now) = true :=
    (counts_iff hmarked _).mpr (mem_withMark.mpr (.inr rfl))
  have hbefore : order.filter (counts (Guard.withMark entries now id)) =
      order.filter (counts (dropEntry entries id)) := by
    refine List.filter_congr fun position hposition => ?_
    have hne : position ≠ (id, now) := by
      rintro rfl
      exact hnew hposition
    rw [Bool.eq_iff_iff, counts_iff hmarked, counts_iff hothers, mem_withMark, mem_dropEntry]
    simp [hne]
  calc (order ++ [(id, now)]).filter (counts (Guard.withMark entries now id))
      = order.filter (counts (dropEntry entries id)) ++ [(id, now)] := by
        rw [List.filter_append, hbefore, List.filter_cons_of_pos hlast, List.filter_nil]
    _ = Guard.withMark entries now id := by
        rw [show order.filter (counts (dropEntry entries id)) = dropEntry entries id from
          h.filter hone _]
        rfl

/-- A position at the front that counts is that of the first entry; without both, the queue lists
the other entries. -/
theorem tail {position : Mark} (h : Listed entries (position :: order)) (hone : OneEach entries)
    (hcounts : counts entries position = true) :
    entries = position :: dropEntry entries position.1 ∧
      Listed (dropEntry entries position.1) order := by
  have hentries : entries = position :: order.filter (counts entries) := by
    rw [Listed, List.filter_cons_of_pos hcounts] at h
    exact h.symm
  have hothers : ∀ entry ∈ order.filter (counts entries), entry.1 ≠ position.1 := by
    rw [hentries] at hone
    intro entry hentry hid
    exact (List.nodup_cons.mp hone).1 (List.mem_map.mpr ⟨entry, hentry, hid⟩)
  have hdrop : dropEntry entries position.1 = order.filter (counts entries) := by
    calc dropEntry entries position.1
        = dropEntry (position :: order.filter (counts entries)) position.1 := by rw [← hentries]
      _ = dropEntry (order.filter (counts entries)) position.1 :=
        List.filter_cons_of_neg (by simp)
      _ = order.filter (counts entries) := List.filter_eq_self.mpr (by simpa using hothers)
  refine ⟨hdrop ▸ hentries, ?_⟩
  have hlisted : Listed (dropEntry entries position.1) (position :: order) := h.filter hone _
  have hgone : ¬ counts (dropEntry entries position.1) position = true := by
    have hothers' : OneEach (dropEntry entries position.1) := hone.filter _
    rw [counts_iff hothers', mem_dropEntry]
    simp
  rwa [Listed, List.filter_cons_of_neg hgone] at hlisted

/-- A position at the front that does not count can be removed. -/
theorem skip {position : Mark} (h : Listed entries (position :: order))
    (hcounts : ¬ counts entries position = true) : Listed entries order := by
  rwa [Listed, List.filter_cons_of_neg hcounts] at h

/-- Eviction keeps the newest entries, and the positions that are left list them. -/
theorem evict (h : Listed entries order) (hone : OneEach entries) (capacity : Nat) :
    (Guard.evict capacity entries order).1 = newest capacity entries ∧
      Listed (newest capacity entries) (Guard.evict capacity entries order).2 := by
  induction order generalizing entries with
  | nil =>
    obtain rfl : [] = entries := h
    simp [Guard.evict, newest, Listed]
  | cons position order ih =>
    rw [Guard.evict]
    split
    · rename_i hfew
      rw [newest_of_length_le hfew]
      exact ⟨rfl, h⟩
    · rename_i hmany
      split
      · rename_i hcounts
        obtain ⟨hentries, hrest⟩ := h.tail hone hcounts
        have hnewest : newest capacity entries =
            newest capacity (dropEntry entries position.1) := by
          rw [hentries] at hmany ⊢
          exact (newest_cons (Nat.not_le.mp hmany)).trans (by simp [← hentries])
        rw [hnewest]
        exact ih hrest (hone.filter _)
      · rename_i hcounts
        exact ih (h.skip hcounts) hone

end Listed

/-- Eviction leaves a part of the queue. -/
theorem evict_order_sublist (capacity : Nat) (entries order : List Mark) :
    (evict capacity entries order).2.Sublist order := by
  induction order generalizing entries with
  | nil => exact List.Sublist.refl _
  | cons position order ih =>
    rw [evict]
    split
    · exact List.Sublist.refl _
    · exact (ih _).trans (List.sublist_cons_self position order)

/-- Marking adds no position but that of the mark. -/
theorem mark_order_sublist (g : Guard) (now : Instant) (id : String) :
    (g.mark now id).order.Sublist (g.order ++ [(id, now)]) := by
  have hevicted := evict_order_sublist g.capacity (withMark g.entries now id)
    (g.order ++ [(id, now)])
  unfold Guard.mark
  dsimp only
  split
  · exact List.filter_sublist.trans hevicted
  · exact hevicted

/-! ## A guard in order -/

/-- A guard in order, after some marks: no id has two entries, there are no more than the guard
may hold, and the queue lists them and holds positions of these marks only. -/
structure Orderly (marks : List Mark) (g : Guard) : Prop where
  oneEach : OneEach g.entries
  few : g.entries.length ≤ g.capacity
  listed : Listed g.entries g.order
  known : ∀ position ∈ g.order, position ∈ marks

/-- A new guard is in order. -/
theorem orderly_new (ttl maxEntries : Nat) : Orderly [] (new ttl maxEntries) :=
  ⟨List.nodup_nil, Nat.zero_le _, rfl, by simp [new]⟩

namespace Orderly

variable {marks : List Mark} {g : Guard}

/-- Dropping entries, with or without their positions, keeps a guard in order. -/
theorem filter (h : g.Orderly marks) (select : Mark → Bool) {order : List Mark}
    (horder : order = g.order ∨ order = g.order.filter (counts (g.entries.filter select))) :
    Orderly marks { g with entries := g.entries.filter select, order := order } where
  oneEach := h.oneEach.filter select
  few := Nat.le_trans (List.length_filter_le ..) h.few
  listed := by
    rcases horder with rfl | rfl
    · exact h.listed.filter h.oneEach select
    · exact (h.listed.filter h.oneEach select).compact
  known := by
    rcases horder with rfl | rfl
    · exact h.known
    · exact fun position hposition => h.known position (List.mem_filter.mp hposition).1

/-- A mark that was not set before keeps the newest entries. -/
theorem mark_entries (h : g.Orderly marks) {now : Instant} {id : String}
    (hnew : (id, now) ∉ marks) :
    (g.mark now id).entries = newest g.capacity (withMark g.entries now id) :=
  ((h.listed.withMark h.oneEach fun hold => hnew (h.known _ hold)).evict
    (oneEach_withMark h.oneEach now id) g.capacity).1

/-- The positions that a mark leaves when it has evicted, if it was not set before, list the entries
that it keeps. -/
theorem listed_evict (h : g.Orderly marks) {now : Instant} {id : String}
    (hnew : (id, now) ∉ marks) :
    Listed (g.mark now id).entries
      (Guard.evict g.capacity (withMark g.entries now id) (g.order ++ [(id, now)])).2 := by
  rw [h.mark_entries hnew]
  exact ((h.listed.withMark h.oneEach fun hold => hnew (h.known _ hold)).evict
    (oneEach_withMark h.oneEach now id) g.capacity).2

/-- A mark that was not set before keeps a guard in order. -/
theorem mark (h : g.Orderly marks) {now : Instant} {id : String} (hnew : (id, now) ∉ marks) :
    Orderly (marks ++ [(id, now)]) (g.mark now id) := by
  refine ⟨oneEach_mark h.oneEach now id, ?few, ?listed, ?known⟩
  case few =>
    rw [h.mark_entries hnew]
    exact length_newest_le _ _
  case listed =>
    have hlisted := h.listed_evict hnew
    unfold Guard.mark at hlisted ⊢
    dsimp only
    split
    · exact hlisted.compact
    · exact hlisted
  case known =>
    intro position hposition
    rcases List.mem_append.mp ((mark_order_sublist g now id).subset hposition) with hold | hmarked
    · exact List.mem_append_left _ (h.known position hold)
    · exact List.mem_append_right _ hmarked

end Orderly

end MarketFeed.Guard
