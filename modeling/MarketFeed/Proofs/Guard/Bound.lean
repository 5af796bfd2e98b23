import MarketFeed.Proofs.Guard.Positions

/-!
# The guard's bound under any clock

Whatever is asked of the guard, and whichever way its clock runs, it never holds more than it may.
Eviction takes positions off the queue one by one, and would have to give up if it ran out of them
while there is still an entry too many. It never does: all along, each entry that is left has its
position among those that are left.

One entry goes at most with each mark. Which one is a matter of the clock: only if it never went
back, no entry that stays is older.
-/

namespace MarketFeed.Guard

open Rehearsal

/-! ## The positions that eviction takes off -/

/-- The entries and positions that are left at some point of an eviction: at its start, or after
one more position was taken off because there were too many entries. -/
inductive Passes (capacity : Nat) (entries order : List Mark) : List Mark → List Mark → Prop
  | start : Passes capacity entries order entries order
  | next {held rest : List Mark} {position : Mark}
      (before : Passes capacity entries order held (position :: rest))
      (many : capacity < held.length) :
      Passes capacity entries order
        (if counts held position then dropEntry held position.1 else held) rest

/-- An eviction comes to what is left by it. -/
theorem Passes.evict {capacity : Nat} {entries order held rest : List Mark}
    (h : Passes capacity entries order held rest) :
    Passes capacity entries order (Guard.evict capacity held rest).1
      (Guard.evict capacity held rest).2 := by
  induction rest generalizing held with
  | nil => exact h
  | cons position rest ih =>
    rw [Guard.evict]
    split
    · exact h
    · rename_i hmany
      exact ih (h.next (Nat.not_le.mp hmany))

/-- Taking off the position in front leaves the entries that are kept with their positions. -/
theorem Placed.next {held rest : List Mark} {position : Mark}
    (h : Placed held (position :: rest)) :
    Placed (if counts held position then dropEntry held position.1 else held) rest := by
  split
  · have hfront : Placed held ([] ++ position :: rest) := h
    exact hfront.behind nofun
  · rename_i hcounts
    refine ⟨h.oneEach, fun entry hentry => ?_⟩
    refine (List.mem_cons.mp (h.placed entry hentry)).resolve_left ?_
    rintro rfl
    exact hcounts ((counts_iff h.oneEach entry).mpr hentry)

/-- All along an eviction, each entry that is left has its position among those that are left. -/
theorem Placed.passes {capacity : Nat} {entries order held rest : List Mark}
    (h : Placed entries order) (hpasses : Passes capacity entries order held rest) :
    Placed held rest := by
  induction hpasses with
  | start => exact h
  | next _ _ ih => exact ih.next

/-- The queue does not run out while there are entries. -/
theorem Placed.ne_nil {held rest : List Mark} (h : Placed held rest) (hsome : 0 < held.length) :
    rest ≠ [] := by
  obtain ⟨entry, hentry⟩ := List.exists_mem_of_length_pos hsome
  exact List.ne_nil_of_mem (h.placed entry hentry)

/-! ## What one mark costs -/

/-- Dropping the entry of an id that has one leaves one entry less. -/
theorem length_dropEntry {entries : List Mark} (hone : OneEach entries) {entry : Mark}
    (h : entry ∈ entries) : (dropEntry entries entry.1).length + 1 = entries.length := by
  have hsame : entries.countP (fun other => decide (other.1 = entry.1)) = 1 := by
    calc entries.countP (fun other => decide (other.1 = entry.1))
        = (entries.map Prod.fst).count entry.1 := by
          rw [List.count_eq_countP, List.countP_map]
          rfl
      _ = 1 := List.count_eq_one_of_mem hone (List.mem_map_of_mem h)
  have hsplit : entries.length = _ + entries.countP _ :=
    List.length_eq_countP_add_countP fun other : Mark => decide (other.1 = entry.1)
  rw [hsame] at hsplit
  rw [hsplit, dropEntry, ← List.countP_eq_length_filter, Nat.add_comm]
  simp

/-- A mark evicts one entry at most. -/
theorem Bounded.length_mark {g : Guard} (h : g.Bounded) (now : Instant) (id : String) :
    (withMark g.entries now id).length ≤ (g.mark now id).entries.length + 1 := by
  change _ ≤ (Guard.evict g.capacity (withMark g.entries now id) (g.order ++ [(id, now)])).1.length
    + 1
  rcases (h.placed.withMark now id).evict_eq (length_withMark_le h.few now id) with
    ⟨-, hleft⟩ | ⟨-, _, position, _, _, hmem, -, hleft⟩
  · rw [hleft]
    exact Nat.le_succ _
  · rw [hleft]
    exact Nat.le_of_eq (length_dropEntry (oneEach_withMark h.placed.oneEach now id) hmem).symm

/-- Over a clock that never goes back, what a mark evicts is not younger than what it keeps. -/
theorem InLine.oldest {now : Instant} {g : Guard} (h : g.InLine now) {id : String} {gone : Mark}
    (hmarked : gone ∈ withMark g.entries now id) (hgone : gone ∉ (g.mark now id).entries) :
    ∀ entry ∈ (g.mark now id).entries, gone.2 ≤ entry.2 := by
  rcases h.spares id with ⟨-, hleft⟩ | ⟨-, oldest, hmem, holdest, hleft⟩
  · rw [hleft] at hgone
    exact absurd hmarked hgone
  · have hsame : gone = oldest := by
      have hid : gone.1 = oldest.1 := by
        by_contra hother
        exact hgone (hleft ▸ mem_dropEntry.mpr ⟨hmarked, hother⟩)
      have hone := oneEach_withMark h.lined.oneEach now id
      exact Prod.ext hid (Option.some_inj.mp
        ((hid ▸ markedAt?_of_mem hone hmarked).symm.trans (markedAt?_of_mem hone hmem)))
    intro entry hentry
    rw [hsame]
    exact holdest entry ((mark_sublist g now id).subset hentry)

/-! ## After calls in a row -/

/-- After calls at any instants, each entry of the guard has its position in the queue, and there
are no more entries than the guard may hold. If one more call sets a mark, its eviction ends with
what the guard then holds, and never runs out of positions while there is an entry too many. It
removes one entry at most; and if the instants never went back, that one is not younger than any
entry that is kept. -/
theorem bounded_under_any_clock (ttl maxEntries : Nat) (calls : List TimedCall) :
    let g := (new ttl maxEntries).after calls
    (∀ entry ∈ g.entries, entry ∈ g.order) ∧ g.size ≤ max 1 maxEntries ∧
      ∀ (now : Instant) (call : GuardCall) (id : String),
        g.inserted? now call = some (id, now) →
        let marked := withMark g.entries now id
        let left := (call.perform now g).2.entries
        (∃ rest, Passes g.capacity marked (g.order ++ [(id, now)]) left rest) ∧
          (∀ held rest, Passes g.capacity marked (g.order ++ [(id, now)]) held rest →
            g.capacity < held.length → rest ≠ []) ∧
          left.Sublist marked ∧ marked.length ≤ left.length + 1 ∧
          (((calls ++ [(now, call)]).Pairwise fun a b => a.1 ≤ b.1) →
            ∀ gone ∈ marked, gone ∉ left → ∀ entry ∈ left, gone.2 ≤ entry.2) := by
  intro g
  have hbounded : g.Bounded := (Bounded.of_new ttl maxEntries).after calls
  have hcapacity : g.capacity = max 1 maxEntries := (after_limits (new ttl maxEntries) calls).2
  refine ⟨hbounded.placed.placed, hcapacity ▸ hbounded.few, fun now call id hset => ?_⟩
  intro marked left
  have hleft : left = (g.mark now id).entries :=
    congrArg Guard.entries (perform_of_inserted hset)
  have hplaced := hbounded.placed.withMark now id
  rw [hleft]
  refine ⟨⟨_, Passes.start.evict⟩, fun held rest hpasses hmany => ?_, mark_sublist g now id,
    hbounded.length_mark now id, fun hordered gone hmarked hgone => ?_⟩
  · exact (hplaced.passes hpasses).ne_nil (Nat.zero_lt_of_lt hmany)
  · obtain ⟨hbefore, -, hlast⟩ := List.pairwise_append.mp hordered
    have hreachable : g.Reachable ttl maxEntries now :=
      ⟨calls, hbefore, fun earlier hearlier => hlast earlier hearlier (now, call) (by simp), rfl⟩
    exact hreachable.inLine.oldest hmarked hgone

/-- In a guard for two ids, a is marked, forgotten and marked again at instant 9, so that two of its
positions count. If b is marked at instant 9 as well, the mark of c evicts a, which is as old as
b. If the clock is set back before b is marked, the mark of c evicts the younger one of them. -/
theorem bounded_under_any_clock_of_set_back :
    let calls : List TimedCall := [(9, .mark "a"), (9, .forget "a"), (9, .mark "a")]
    let g := (new 1000 2).after (calls ++ [(9, .mark "b")])
    let back := (new 1000 2).after (calls ++ [(3, .mark "b")])
    g.order = [("a", 9), ("a", 9), ("b", 9)] ∧ g.size ≤ 2 ∧
      (g.mark 9 "c").entries = [("b", 9), ("c", 9)] ∧
      (∀ entry ∈ (g.mark 9 "c").entries, 9 ≤ entry.2) ∧
      back.order = [("a", 9), ("a", 9), ("b", 3)] ∧ back.size ≤ 2 ∧
      (back.mark 4 "c").entries = [("b", 3), ("c", 4)] := by
  intro calls g back
  obtain ⟨-, hsize, hmark⟩ := bounded_under_any_clock 1000 2 (calls ++ [(9, .mark "b")])
  obtain ⟨-, -, -, -, holdest⟩ := hmark 9 (.mark "c") "c" rfl
  have hbackSize := (bounded_under_any_clock 1000 2 (calls ++ [(3, .mark "b")])).2.1
  exact ⟨rfl, hsize, rfl, holdest (by decide) ("a", 9) (by decide) (by decide), rfl, hbackSize, rfl⟩

end MarketFeed.Guard
