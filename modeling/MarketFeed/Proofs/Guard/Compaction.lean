import MarketFeed.Proofs.Guard.Calls

/-!
# The queue stays short

Entries that are marked again, forgotten or expired leave their positions behind, and only a mark
looks at how long the queue has become. It compares the queue with twice the entries, and the other
calls drop entries without a look at the queue, so between two marks the queue may be much longer
than that. What holds after every call is the bound for a full guard: a mark either finds the queue
within twice the entries, or compacts it to exactly the entries, and no other call makes it longer.

Compaction does so only if no id was marked twice at one instant. Positions that an id has left
behind at the instant of its entry count like the position of the entry, and are all kept.
-/

namespace MarketFeed.Guard

open Rehearsal

variable {marks : List Mark} {now : Instant} {g g' : Guard} {mark? : Option Mark}

/-! ## Compaction -/

/-- The queue as a call leaves it, by the mark that it sets, before positions that do not count are
removed from it. -/
def uncompacted (g : Guard) : Option Mark → List Mark
  | none => g.order
  | some mark => (evict g.capacity (withMark g.entries mark.2 mark.1) (g.order ++ [mark])).2

/-- A mark removes the positions that do not count if there are more than the slack. -/
theorem order_mark (g : Guard) (now : Instant) (id : String) :
    (g.mark now id).order =
      if slack (g.mark now id).entries < (g.uncompacted (some (id, now))).length
        then (g.uncompacted (some (id, now))).filter (counts (g.mark now id).entries)
        else g.uncompacted (some (id, now)) := rfl

/-- A call puts one position at most into the queue. -/
theorem length_uncompacted_le (g : Guard) (mark? : Option Mark) :
    (g.uncompacted mark?).length ≤ g.order.length + 1 := by
  cases mark? with
  | none => exact Nat.le_succ _
  | some mark =>
    calc (g.uncompacted (some mark)).length
        ≤ (g.order ++ [mark]).length := (evict_order_sublist ..).length_le
      _ = g.order.length + 1 := by simp

/-- A call leaves the queue alone, or removes the positions that do not count from it. -/
theorem Effect.order_eq (h : Effect now g mark? g') :
    g'.order = g.uncompacted mark? ∨
      g'.order = (g.uncompacted mark?).filter (counts g'.entries) := by
  cases h with
  | keep => exact .inl rfl
  | drop select order horder => exact horder
  | mark id =>
    rw [order_mark]
    split
    · exact .inr rfl
    · exact .inl rfl

/-- Compaction removes no position of an entry that is left. -/
theorem Effect.count_order (h : Effect now g mark? g') (hone : OneEach g'.entries) {entry : Mark}
    (hentry : entry ∈ g'.entries) :
    g'.order.count entry = (g.uncompacted mark?).count entry := by
  rcases h.order_eq with hleft | hcompacted
  · rw [hleft]
  · rw [hcompacted]
    exact List.count_filter ((counts_iff hone entry).mpr hentry)

/-- Calls give no id a second entry. -/
theorem Effect.oneEach (h : Effect now g mark? g') (hone : OneEach g.entries) :
    OneEach g'.entries := by
  cases h with
  | keep => exact hone
  | drop select order horder => exact hone.filter select
  | mark id => exact oneEach_mark hone now id

/-! ## The bound -/

/-- The queue is within the bound for a guard that holds all it may. -/
def Short (g : Guard) : Prop := g.order.length ≤ max 64 (2 * g.capacity)

/-- A mark that was not set before makes the queue short, however long it was. -/
theorem Orderly.short_mark (h : g.Orderly marks) {id : String} (hnew : (id, now) ∉ marks) :
    (g.mark now id).Short := by
  have hfew : (g.mark now id).entries.length ≤ g.capacity := (h.mark hnew).few
  have hlisted : (g.uncompacted (some (id, now))).filter (counts (g.mark now id).entries) =
      (g.mark now id).entries := h.listed_evict hnew
  change (g.mark now id).order.length ≤ max 64 (2 * g.capacity)
  rw [order_mark]
  split
  · rw [hlisted]
    omega
  · rename_i hwithin
    rw [slack] at hwithin
    omega

/-- A call keeps the queue short, unless it sets a mark that was set before. -/
theorem Orderly.short_step (h : g.Orderly marks) (hshort : g.Short)
    (heffect : Effect now g mark? g') (hnew : (marks ++ mark?.toList).Nodup) : g'.Short := by
  cases heffect with
  | keep => exact hshort
  | drop select order horder =>
    have hless : order.length ≤ g.order.length := by
      rcases horder with rfl | rfl
      · exact Nat.le_refl _
      · exact List.length_filter_le _ _
    exact Nat.le_trans hless hshort
  | mark id => exact h.short_mark fun hold => List.disjoint_of_nodup_append hnew hold (by simp)

/-- Calls in a row keep the queue short, unless they set a mark that was set before. -/
theorem Orderly.short_after (h : g.Orderly marks) (hshort : g.Short) (calls : List TimedCall)
    (hnew : (marks ++ g.insertions calls).Nodup) : (g.after calls).Short := by
  induction calls generalizing marks g with
  | nil => exact hshort
  | cons call rest ih =>
    obtain ⟨now, call⟩ := call
    simp only [insertions, ← List.append_assoc] at hnew
    have hnow : (marks ++ (g.inserted? now call).toList).Nodup :=
      hnew.sublist (List.sublist_append_left _ _)
    have heffect := perform_effect call now g
    exact ih (h.step heffect hnow) (h.short_step hshort heffect hnow) hnew

/-- After calls that set no mark twice, whatever they are and however their instants run, the queue
is within the bound for a guard that holds all it may, and lists the entries, each with one
position. Over any further call it is longer by one position at most, and if positions are removed
from it then, all positions of entries that are left are kept. -/
theorem queue_stays_short (ttl maxEntries : Nat) (calls : List TimedCall)
    (hnew : ((new ttl maxEntries).insertions calls).Nodup) :
    let g := (new ttl maxEntries).after calls
    g.order.length ≤ max 64 (2 * max 1 maxEntries) ∧ g.order.filter (counts g.entries) = g.entries ∧
      ∀ (now : Instant) (call : GuardCall),
        let g' := (call.perform now g).2
        let queue := g.uncompacted (g.inserted? now call)
        queue.length ≤ max 64 (2 * max 1 maxEntries) + 1 ∧
          (g'.order = queue ∨ g'.order = queue.filter (counts g'.entries)) ∧
          ∀ entry ∈ g'.entries, g'.order.count entry = queue.count entry := by
  intro g
  have horderly := orderly_after hnew
  have hcapacity : g.capacity = max 1 maxEntries := (after_limits (new ttl maxEntries) calls).2
  have hshort : g.order.length ≤ max 64 (2 * max 1 maxEntries) := by
    rw [← hcapacity]
    exact (orderly_new ttl maxEntries).short_after (Nat.zero_le _) calls (by simpa using hnew)
  refine ⟨hshort, horderly.listed, fun now call => ?_⟩
  have heffect := perform_effect call now g
  exact ⟨Nat.le_trans (g.length_uncompacted_le _) (Nat.succ_le_succ hshort), heffect.order_eq,
    fun entry hentry => heffect.count_order (heffect.oneEach horderly.oneEach) hentry⟩

/-- An id is marked sixty-four times, and forgotten or expired each time. The queue is as long as
it may be then, without an entry. The next mark finds it too long, and compacts it to its own
position. -/
theorem queue_stays_short_of_withdrawn :
    let calls : List TimedCall := (List.range 32).flatMap fun n =>
      [(3 * n, .tryMark "a"), (3 * n, .forget "a"), (3 * n + 1, .mark "a"), (3 * n + 2, .seen "a")]
    let g := (new 1 5).after calls
    ((new 1 5).insertions calls).Nodup ∧ g.order.length ≤ 64 ∧ g.order.length = 64 ∧
      g.entries = [] ∧ (g.uncompacted (some ("b", 96))).length = 65 ∧
      (g.mark 96 "b").order = [("b", 96)] ∧
      (g.mark 96 "b").order.count ("b", 96) = (g.uncompacted (some ("b", 96))).count ("b", 96) := by
  intro calls g
  have hnew : ((new 1 5).insertions calls).Nodup := by decide +kernel
  obtain ⟨hshort, -, hnext⟩ := queue_stays_short 1 5 calls hnew
  obtain ⟨-, -, hkept⟩ := hnext 96 (.mark "b")
  exact ⟨hnew, hshort, by decide +kernel, by decide +kernel, by decide +kernel, by decide +kernel,
    hkept ("b", 96) (by decide +kernel)⟩

/-! ## Marks at one instant -/

/-- In a queue of nothing but positions of one mark, all count when the mark is set once more. -/
theorem mark_again {id : String} {n : Nat} (hroom : 0 < g.capacity)
    (hentries : ∀ entry ∈ g.entries, entry.1 = id) (horder : g.order = List.replicate n (id, now)) :
    (g.mark now id).entries = [(id, now)] ∧
      (g.mark now id).order = List.replicate (n + 1) (id, now) := by
  have hmarked : withMark g.entries now id = [(id, now)] := by
    have hnone : dropEntry g.entries id = [] :=
      List.filter_eq_nil_iff.mpr fun entry hentry => by simp [hentries entry hentry]
    rw [withMark, hnone, List.nil_append]
  have hevict : evict g.capacity (withMark g.entries now id) (g.order ++ [(id, now)]) =
      ([(id, now)], List.replicate (n + 1) (id, now)) := by
    rw [hmarked, horder, ← List.replicate_succ']
    exact evict_of_length_le _ hroom
  have hleft : (g.mark now id).entries = [(id, now)] := congrArg Prod.fst hevict
  have hqueue : g.uncompacted (some (id, now)) = List.replicate (n + 1) (id, now) :=
    congrArg Prod.snd hevict
  have hall : (List.replicate (n + 1) (id, now)).filter (counts [(id, now)]) =
      List.replicate (n + 1) (id, now) := by
    have hone : OneEach [(id, now)] := List.nodup_singleton id
    refine List.filter_eq_self.mpr fun position hposition => ?_
    rw [List.eq_of_mem_replicate hposition]
    exact (counts_iff hone _).mpr (List.mem_singleton_self _)
  refine ⟨hleft, ?_⟩
  rw [order_mark, hleft, hqueue, hall, ite_self]

/-- The positions of an id that is marked again and again at one instant are all kept, so that the
queue grows with each mark. -/
theorem order_of_marked_again (ttl maxEntries : Nat) (now : Instant) (id : String) (n : Nat) :
    let g := (new ttl maxEntries).after (List.replicate n (now, .mark id))
    (∀ entry ∈ g.entries, entry.1 = id) ∧ g.order = List.replicate n (id, now) := by
  induction n with
  | zero => exact ⟨nofun, rfl⟩
  | succ n ih =>
    obtain ⟨hentries, horder⟩ := ih
    have hroom : 0 < ((new ttl maxEntries).after (List.replicate n (now, .mark id))).capacity := by
      rw [(after_limits _ _).2]
      exact Nat.lt_of_lt_of_le Nat.one_pos (Nat.le_max_left 1 maxEntries)
    obtain ⟨hlast, hgrown⟩ := mark_again hroom hentries horder
    rw [List.replicate_succ', after_append]
    change (∀ entry ∈ (Guard.mark _ now id).entries, entry.1 = id) ∧ (Guard.mark _ now id).order = _
    rw [hlast, hgrown]
    exact ⟨by simp, rfl⟩

end MarketFeed.Guard
