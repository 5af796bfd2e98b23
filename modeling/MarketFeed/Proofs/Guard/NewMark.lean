import MarketFeed.Proofs.Guard.Positions

/-!
# Whether a new mark is kept

A mark that has just been set is the newest one, and eviction starts with the oldest. Still it may
be the one that is evicted, namely when its id was marked at this very instant before and has lost
the entry since. The position it has left behind carries the same instant, so it counts for the new
entry. If the guard is full and no position in front of it counts, eviction meets it first.

This is the only way to lose a new mark. So it is kept if the id was not marked at this instant
before, if it still has an entry, or if there is room for one more.
-/

namespace MarketFeed.Guard

open Rehearsal

/-! ## A mark that is overtaken -/

/-- Of two elements of a list, neither of which stands in front of the other, both are the same. -/
theorem eq_of_neither_before {before before' after after' : List Mark} {a b : Mark}
    (h : before ++ a :: after = before' ++ b :: after') (ha : a ∉ before') (hb : b ∉ before) :
    a = b := by
  rcases List.append_eq_append_iff.mp h with ⟨more, hfront, htail⟩ | ⟨more, hfront, htail⟩
  · cases more with
    | nil => exact List.head_eq_of_cons_eq htail
    | cons c more =>
      obtain rfl : a = c := List.head_eq_of_cons_eq htail
      exact absurd (by simp [hfront]) ha
  · cases more with
    | nil => exact (List.head_eq_of_cons_eq htail).symm
    | cons c more =>
      obtain rfl : b = c := List.head_eq_of_cons_eq htail
      exact absurd (by simp [hfront]) hb

/-- A position that an id has left behind at this very instant would count for its next mark and be
met first: the id has no entry, the guard is full, and in the queue the position stands in front of
those of all entries. -/
def Overtaken (g : Guard) (now : Instant) (id : String) : Prop :=
  (∀ entry ∈ g.entries, entry.1 ≠ id) ∧ g.entries.length = g.capacity ∧
    ∃ before after, g.order = before ++ (id, now) :: after ∧
      ∀ entry ∈ g.entries, entry ∉ before

/-- An id without an entry gets one more entry with its mark. -/
theorem withMark_of_absent {entries : List Mark} {id : String}
    (h : ∀ entry ∈ entries, entry.1 ≠ id) (now : Instant) :
    withMark entries now id = entries ++ [(id, now)] := by
  rw [withMark, dropEntry_of_absent h]

/-- An id that has an entry gets no more entries with its mark. -/
theorem length_withMark_of_mem {entries : List Mark} {entry : Mark} (h : entry ∈ entries)
    (now : Instant) : (withMark entries now entry.1).length ≤ entries.length := by
  have hfewer := length_dropEntry_lt h
  rw [withMark, List.length_append, List.length_singleton]
  omega

namespace InLine

variable {now : Instant} {g : Guard} {id : String}

/-- There are too many entries with a mark only if its id has none and the guard is full. -/
theorem full_of_lt (h : g.InLine now) (hmany : g.capacity < (withMark g.entries now id).length) :
    (∀ entry ∈ g.entries, entry.1 ≠ id) ∧ g.entries.length = g.capacity := by
  have hfew := h.few
  have habsent : ∀ entry ∈ g.entries, entry.1 ≠ id := by
    rintro entry hentry rfl
    have := length_withMark_of_mem hentry now
    omega
  rw [withMark_of_absent habsent, List.length_append, List.length_singleton] at hmany
  exact ⟨habsent, by omega⟩

/-- A full guard keeps the entry of a mark unless a position of the id is met first. -/
theorem mem_mark_of_full (h : g.InLine now) (hroom : 0 < g.capacity)
    (habsent : ∀ entry ∈ g.entries, entry.1 ≠ id) (hfull : g.entries.length = g.capacity) :
    (id, now) ∈ (g.mark now id).entries ↔ ¬ g.Overtaken now id := by
  have hnew : (id, now) ∈ withMark g.entries now id := mem_withMark.mpr (.inr rfl)
  have hothers : ∀ entry ∈ g.entries, entry ∈ withMark g.entries now id := fun entry hentry =>
    mem_withMark.mpr (.inl ⟨hentry, habsent entry hentry⟩)
  have hlength : (withMark g.entries now id).length = g.capacity + 1 := by
    rw [withMark_of_absent habsent, List.length_append, List.length_singleton, hfull]
  -- The guard holds something, and all that it holds has its position in the queue.
  obtain ⟨held, hheld⟩ := List.exists_mem_of_length_pos (hfull ▸ hroom)
  obtain ⟨before, position, after, hsplit, hposition, hbefore⟩ :=
    exists_first_position ⟨held, hothers held hheld, h.lined.placed held hheld⟩
  have hentries : (g.mark now id).entries =
      dropEntry (withMark g.entries now id) position.1 := by
    change (evict g.capacity (withMark g.entries now id) (g.order ++ [(id, now)])).1 = _
    rw [hsplit, List.append_assoc, List.cons_append,
      evict_append_cons (oneEach_withMark h.lined.oneEach now id) hlength hposition hbefore]
  rw [hentries, mem_dropEntry]
  constructor
  · rintro ⟨-, hother⟩ ⟨-, -, before', after', hsplit', hbehind⟩
    rcases mem_withMark.mp hposition with ⟨hheld', -⟩ | rfl
    · have hsame := eq_of_neither_before (hsplit.symm.trans hsplit') (hbehind position hheld')
        fun hearlier => hbefore _ hearlier hnew
      exact hother (congrArg Prod.fst hsame).symm
    · exact hother rfl
  · refine fun hnot => ⟨hnew, fun hid => hnot ⟨habsent, hfull, before, after, ?_, ?_⟩⟩
    · rcases mem_withMark.mp hposition with ⟨hheld', -⟩ | rfl
      · exact absurd hid.symm (habsent position hheld')
      · exact hsplit
    · exact fun entry hentry hearlier => hbefore entry hearlier (hothers entry hentry)

/-- The entry of a new mark is kept, unless the mark is overtaken. -/
theorem mem_mark_iff (h : g.InLine now) (hroom : 0 < g.capacity) :
    (id, now) ∈ (g.mark now id).entries ↔ ¬ g.Overtaken now id := by
  by_cases hfew : (withMark g.entries now id).length ≤ g.capacity
  · rw [mark_entries hfew]
    refine iff_of_true (mem_withMark.mpr (.inr rfl)) ?_
    rintro ⟨habsent, hfull, -⟩
    rw [withMark_of_absent habsent, List.length_append, List.length_singleton] at hfew
    omega
  · obtain ⟨habsent, hfull⟩ := h.full_of_lt (Nat.not_le.mp hfew)
    exact h.mem_mark_of_full hroom habsent hfull

end InLine

/-! ## After calls in a row -/

/-- Right after an id was marked, it is seen exactly if its entry was kept. -/
theorem seen_mark_iff {g : Guard} (hone : OneEach g.entries) (httl : 0 < g.ttl) (now : Instant)
    (id : String) :
    ((g.mark now id).seen now id).1 = true ↔ (id, now) ∈ (g.mark now id).entries := by
  have hseen : ((g.mark now id).seen now id).1 = (g.mark now id).isLive now id := by
    unfold seen
    split <;> simp_all
  have hfresh : (g.mark now id).isFresh now now = true :=
    decide_eq_true (Nat.sub_lt_left_of_lt_add (Nat.le_refl now) (Nat.lt_add_of_pos_right httl))
  rw [hseen]
  constructor
  · intro hlive
    obtain ⟨marked, hmem, -⟩ := exists_fresh_of_isLive hlive
    rcases mem_withMark.mp ((mark_sublist g now id).subset hmem) with ⟨-, hother⟩ | hmark
    · exact absurd rfl hother
    · exact hmark ▸ hmem
  · exact fun hmem => isLive_of_fresh (oneEach_mark hone now id) hmem hfresh

/-- A call adds no position but that of the mark that it sets. -/
theorem Effect.order_subset {now : Instant} {g g' : Guard} {mark? : Option Mark}
    (h : Effect now g mark? g') : g'.order ⊆ g.order ++ mark?.toList := by
  cases h with
  | keep => simp
  | drop select order horder =>
    rcases horder with rfl | rfl
    · simp
    · exact fun position hposition =>
        List.mem_append_left _ (List.mem_filter.mp hposition).1
  | mark id => exact (mark_order_sublist g now id).subset

/-- All positions are those of marks that were set. -/
theorem order_after_subset (g : Guard) (calls : List TimedCall) :
    (g.after calls).order ⊆ g.order ++ g.insertions calls := by
  induction calls generalizing g with
  | nil => simp [after, insertions]
  | cons call rest ih =>
    obtain ⟨now, call⟩ := call
    intro position hposition
    rw [insertions, ← List.append_assoc]
    rcases List.mem_append.mp (ih (call.perform now g).2 hposition) with hbefore | hlater
    · exact List.mem_append_left _ ((perform_effect call now g).order_subset hbefore)
    · exact List.mem_append_right _ hlater

/-- Right after an id was marked, at the same instant, it is seen as long as its mark is not
overtaken. And it can only be overtaken if the id was marked at this instant before. -/
theorem seen_unless_overtaken {ttl maxEntries : Nat} (httl : 0 < ttl) {calls : List TimedCall}
    (hordered : calls.Pairwise fun a b => a.1 ≤ b.1) {now : Instant}
    (hpast : ∀ call ∈ calls, call.1 ≤ now) {call : GuardCall} {id : String}
    (hset : ((new ttl maxEntries).after calls).inserted? now call = some (id, now)) :
    (((call.perform now ((new ttl maxEntries).after calls)).2.seen now id).1 = true ↔
        ¬ ((new ttl maxEntries).after calls).Overtaken now id) ∧
      (((new ttl maxEntries).after calls).Overtaken now id →
        (id, now) ∈ (new ttl maxEntries).insertions calls) := by
  have hreachable : ((new ttl maxEntries).after calls).Reachable ttl maxEntries now :=
    ⟨calls, hordered, hpast, rfl⟩
  have hinLine := hreachable.inLine
  obtain ⟨httl', hcapacity⟩ := hreachable.limits
  constructor
  · rw [perform_of_inserted hset, seen_mark_iff hinLine.lined.oneEach (httl'.symm ▸ httl),
      hinLine.mem_mark_iff (by omega)]
  · rintro ⟨-, -, before, after, hsplit, -⟩
    have hposition : (id, now) ∈ ((new ttl maxEntries).after calls).order := by simp [hsplit]
    simpa [new] using order_after_subset (new ttl maxEntries) calls hposition

/-- In a guard for two ids, a is marked again, forgotten and committed once more at instant 5. The
position that it has left behind there stands behind that of b, so b is evicted. -/
theorem seen_unless_overtaken_of_committed_again :
    let calls : List TimedCall :=
      [(0, .mark "a"), (0, .mark "b"), (5, .mark "a"), (5, .forget "a"), (5, .tryMark "c")]
    let g := (new 1000 2).after calls
    (g.tryMark 5 "a").1 = true ∧ ("a", 5) ∈ (new 1000 2).insertions calls ∧
      ¬ g.Overtaken 5 "a" ∧ ((g.tryMark 5 "a").2.seen 5 "a").1 = true := by
  intro calls g
  have hseen : ((g.tryMark 5 "a").2.seen 5 "a").1 = true := by decide
  have hkept := (@seen_unless_overtaken 1000 2 (by decide) calls (by decide) 5 (by decide)
    (.tryMark "a") "a" (by decide)).1.mp hseen
  exact ⟨by decide, by decide, hkept, hseen⟩

/-- An id that is committed again at the instant at which it was committed and forgotten is not
seen right after it, if two others have filled the guard for two ids in between. The same happens
in a guard for one id, without forgetting, if the id was marked twice before. -/
theorem overtaken_not_seen :
    (new 1000 2).answers [(0, .tryMark "c"), (0, .forget "c"), (0, .tryMark "a"),
        (0, .tryMark "b"), (0, .tryMark "c"), (0, .seen "c")] =
      [.truth true, .nothing, .truth true, .truth true, .truth true, .truth false] ∧
    (new 1000 1).answers [(0, .mark "c"), (0, .mark "c"), (0, .mark "a"), (0, .mark "c"),
        (0, .seen "c")] =
      [.nothing, .nothing, .nothing, .nothing, .truth false] :=
  ⟨rfl, rfl⟩

end MarketFeed.Guard
