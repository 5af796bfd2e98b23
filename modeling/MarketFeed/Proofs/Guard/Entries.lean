import MarketFeed.Guard
import Mathlib.Data.List.Nodup

/-!
# The entries of the guard under its operations

An id has at most one entry, whatever is done to the guard. Asking and sweeping drop expired
entries only; marking adds one entry, and drops others only if there are more than the guard
may hold; forgetting drops the entry of one id. The queue of positions does not matter here,
except that an entry can only be evicted with a position.
-/

namespace MarketFeed.Guard

/-- No id has two entries. -/
def OneEach (entries : List Mark) : Prop := (entries.map Prod.fst).Nodup

/-- Dropping the entry of an id keeps exactly the entries of the others. -/
@[simp] theorem mem_dropEntry {entries : List Mark} {id : String} {entry : Mark} :
    entry ∈ dropEntry entries id ↔ entry ∈ entries ∧ entry.1 ≠ id := by
  simp [dropEntry]

/-- The instant found for an id is that of one of its entries. -/
theorem mem_of_markedAt? {entries : List Mark} {id : String} {marked : Instant}
    (h : markedAt? entries id = some marked) : (id, marked) ∈ entries := by
  obtain ⟨entry, hfind, rfl⟩ := Option.map_eq_some_iff.mp h
  have hid : entry.1 = id := by simpa using List.find?_some hfind
  rw [← hid]
  exact List.mem_of_find?_eq_some hfind

/-- If no id has two entries, the entry of an id tells the instant found for it. -/
theorem markedAt?_of_mem {entries : List Mark} (hone : OneEach entries) {id : String}
    {marked : Instant} (h : (id, marked) ∈ entries) : markedAt? entries id = some marked := by
  induction entries with
  | nil => simp at h
  | cons entry rest ih =>
    obtain ⟨hnew, hrest⟩ := List.nodup_cons.mp hone
    rcases List.mem_cons.mp h with rfl | hmem
    · simp [markedAt?]
    · have hne : entry.1 ≠ id := by
        rintro rfl
        exact hnew (List.mem_map.mpr ⟨_, hmem, rfl⟩)
      simpa [markedAt?, List.find?_cons, hne] using ih hrest hmem

/-- A live id has an entry whose age has not reached the time to live. -/
theorem exists_fresh_of_isLive {g : Guard} {now : Instant} {id : String}
    (h : g.isLive now id = true) :
    ∃ marked, (id, marked) ∈ g.entries ∧ g.isFresh now marked = true := by
  obtain ⟨marked, hmarked, hfresh⟩ := (Option.any_eq_true ..).mp h
  exact ⟨marked, mem_of_markedAt? hmarked, hfresh⟩

/-- An id with an entry whose age has not reached the time to live is live. -/
theorem isLive_of_fresh {g : Guard} (hone : OneEach g.entries) {now marked : Instant} {id : String}
    (h : (id, marked) ∈ g.entries) (hfresh : g.isFresh now marked = true) :
    g.isLive now id = true := by
  simp [isLive, markedAt?_of_mem hone h, hfresh]

/-- An id without an entry is not live. -/
theorem isLive_of_absent {g : Guard} {id : String} (h : ∀ entry ∈ g.entries, entry.1 ≠ id)
    (now : Instant) : g.isLive now id = false := by
  refine Bool.eq_false_iff.mpr fun hlive => ?_
  obtain ⟨marked, hmem, -⟩ := exists_fresh_of_isLive hlive
  exact h _ hmem rfl

/-- An id that was forgotten is not live. -/
theorem isLive_forget (g : Guard) (now : Instant) (id : String) :
    (g.forget id).isLive now id = false :=
  isLive_of_absent (fun _ hmem => (mem_dropEntry.mp hmem).2) now

/-- An id that is found not to be live is not live afterwards. -/
theorem isLive_seen {g : Guard} {now : Instant} {id : String} (h : g.isLive now id = false) :
    (g.seen now id).2.isLive now id = false := by
  simp only [seen, h]
  exact isLive_of_absent (fun _ hmem => (mem_dropEntry.mp hmem).2) now

/-! ## Tidying -/

/-- At an instant, a guard differs from an earlier one in nothing but expired entries that it
dropped, and in its queue. -/
structure Tidied (now : Instant) (before after : Guard) : Prop where
  ttl : after.ttl = before.ttl
  capacity : after.capacity = before.capacity
  sublist : after.entries.Sublist before.entries
  fresh : ∀ entry ∈ before.entries, before.isFresh now entry.2 = true → entry ∈ after.entries

/-- A guard that is left alone is tidy. -/
theorem Tidied.refl (now : Instant) (g : Guard) : Tidied now g g :=
  ⟨rfl, rfl, List.Sublist.refl _, fun _ h _ => h⟩

/-- Sweeping drops nothing but expired entries. -/
theorem tidied_sweep (g : Guard) (now : Instant) : Tidied now g (g.sweep now).2 where
  ttl := rfl
  capacity := rfl
  sublist := List.filter_sublist
  fresh := fun _ hmem hfresh => List.mem_filter.mpr ⟨hmem, hfresh⟩

/-- Asking for an id drops nothing but its expired entry. -/
theorem tidied_seen {g : Guard} (hone : OneEach g.entries) (now : Instant) (id : String) :
    Tidied now g (g.seen now id).2 := by
  unfold seen
  split
  · exact Tidied.refl now g
  · rename_i hlive
    refine ⟨rfl, rfl, List.filter_sublist, fun entry hmem hfresh => ?_⟩
    refine mem_dropEntry.mpr ⟨hmem, ?_⟩
    rintro rfl
    exact hlive (isLive_of_fresh hone hmem hfresh)

/-- Tidying gives no id a second entry. -/
theorem Tidied.oneEach {now : Instant} {before after : Guard} (h : Tidied now before after)
    (hone : OneEach before.entries) : OneEach after.entries :=
  hone.sublist (h.sublist.map _)

/-! ## Marking and forgetting -/

/-- Eviction only drops entries. -/
theorem evict_sublist (capacity : Nat) (entries order : List Mark) :
    (evict capacity entries order).1.Sublist entries := by
  induction order generalizing entries with
  | nil => exact List.Sublist.refl _
  | cons position order ih =>
    rw [evict]
    split
    · exact List.Sublist.refl _
    · refine (ih _).trans ?_
      split
      · exact List.filter_sublist
      · exact List.Sublist.refl _

/-- Nothing is evicted from a guard that may hold all its entries. -/
theorem evict_of_length_le {capacity : Nat} {entries : List Mark} (order : List Mark)
    (h : entries.length ≤ capacity) : evict capacity entries order = (entries, order) := by
  cases order with
  | nil => rfl
  | cons position order => rw [evict, if_pos h]

/-- The entries after an id was marked, before any is evicted. -/
def withMark (entries : List Mark) (now : Instant) (id : String) : List Mark :=
  dropEntry entries id ++ [(id, now)]

/-- The entries with a new mark are that mark and those of the other ids. -/
theorem mem_withMark {entries : List Mark} {now : Instant} {id : String} {entry : Mark} :
    entry ∈ withMark entries now id ↔
      (entry ∈ entries ∧ entry.1 ≠ id) ∨ entry = (id, now) := by
  simp [withMark]

/-- A new mark gives no id a second entry. -/
theorem oneEach_withMark {entries : List Mark} (hone : OneEach entries) (now : Instant)
    (id : String) : OneEach (withMark entries now id) := by
  have hothers : OneEach (dropEntry entries id) := hone.sublist (List.filter_sublist.map _)
  unfold OneEach withMark
  rw [List.map_append]
  refine hothers.append (by simp) ?_
  simp only [List.map_cons, List.map_nil, List.disjoint_singleton, List.mem_map, not_exists,
    not_and]
  intro entry hmem
  exact (mem_dropEntry.mp hmem).2

/-- Marking adds no entry but that of the id. -/
theorem mark_sublist (g : Guard) (now : Instant) (id : String) :
    (g.mark now id).entries.Sublist (withMark g.entries now id) :=
  evict_sublist _ _ _

/-- Marking evicts nothing from a guard that may hold all entries. -/
theorem mark_entries {g : Guard} {now : Instant} {id : String}
    (h : (withMark g.entries now id).length ≤ g.capacity) :
    (g.mark now id).entries = withMark g.entries now id := by
  change (evict g.capacity (withMark g.entries now id) _).1 = _
  rw [evict_of_length_le _ h]

/-- Marking gives no id a second entry. -/
theorem oneEach_mark {g : Guard} (hone : OneEach g.entries) (now : Instant) (id : String) :
    OneEach (g.mark now id).entries :=
  (oneEach_withMark hone now id).sublist ((mark_sublist g now id).map _)

/-- Forgetting gives no id a second entry. -/
theorem oneEach_forget {g : Guard} (hone : OneEach g.entries) (id : String) :
    OneEach (g.forget id).entries :=
  hone.sublist (List.filter_sublist.map _)

end MarketFeed.Guard
