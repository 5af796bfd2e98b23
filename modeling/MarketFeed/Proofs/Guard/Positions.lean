import MarketFeed.Proofs.Guard.Eviction
import Mathlib.Data.List.Induction

/-!
# What a mark evicts

While the clock never goes back, the positions of the queue are in the order of their instants,
and each entry of the guard has one. Nothing more is needed to tell what a mark evicts: at most
one entry, and no entry is older. Positions that are left behind by entries that are gone do no
harm, not even if they count again because their id was marked twice at one instant.
-/

namespace MarketFeed.Guard

open Rehearsal

/-! ## Eviction -/

/-- Each entry has a position in the queue, and the positions are in the order of their
instants. -/
structure Lined (entries order : List Mark) : Prop where
  oneEach : OneEach entries
  placed : ∀ entry ∈ entries, entry ∈ order
  sorted : order.Pairwise fun a b => a.2 ≤ b.2

namespace Lined

variable {entries order : List Mark}

/-- Each entry has its position in the queue. -/
theorem toPlaced (h : Lined entries order) : Placed entries order := ⟨h.oneEach, h.placed⟩

/-- Entries that are left when some are dropped still have their positions. -/
theorem filter (h : Lined entries order) (select : Mark → Bool) :
    Lined (entries.filter select) order :=
  ⟨h.oneEach.filter select, (h.toPlaced.filter select).placed, h.sorted⟩

/-- Positions that do not count are not needed. -/
theorem compact (h : Lined entries order) : Lined entries (order.filter (counts entries)) :=
  ⟨h.oneEach, h.toPlaced.compact.placed, h.sorted.sublist List.filter_sublist⟩

/-- A new mark is placed last. -/
theorem withMark (h : Lined entries order) {now : Instant}
    (hpast : ∀ position ∈ order, position.2 ≤ now) (id : String) :
    Lined (withMark entries now id) (order ++ [(id, now)]) where
  oneEach := oneEach_withMark h.oneEach now id
  placed := (h.toPlaced.withMark now id).placed
  sorted := by
    refine List.pairwise_append.mpr ⟨h.sorted, List.pairwise_singleton _ _, ?_⟩
    intro position hposition last hlast
    obtain rfl := List.mem_singleton.mp hlast
    exact hpast position hposition

end Lined

/-- What is left when there is one entry too many at most: all entries, or all but one that is not
younger than any other. -/
def Spares (capacity : Nat) (entries left : List Mark) : Prop :=
  (entries.length ≤ capacity ∧ left = entries) ∨
    (capacity < entries.length ∧ ∃ oldest ∈ entries, (∀ entry ∈ entries, oldest.2 ≤ entry.2) ∧
      left = dropEntry entries oldest.1)

/-- Evicting one entry at most takes an oldest one, and the others keep their positions. -/
theorem Lined.evict {capacity : Nat} {entries order : List Mark} (h : Lined entries order)
    (hlength : entries.length ≤ capacity + 1) :
    Spares capacity entries (evict capacity entries order).1 ∧
      Lined (Guard.evict capacity entries order).1 (Guard.evict capacity entries order).2 := by
  rcases h.toPlaced.evict_eq hlength with
    ⟨hfew, hleft⟩ | ⟨hmany, before, position, after, rfl, hmem, hbefore, hleft⟩
  · rw [hleft]
    exact ⟨.inl ⟨hfew, rfl⟩, h⟩
  · have hlater := (List.pairwise_append.mp h.sorted).2.1
    obtain ⟨hfirst, hafter⟩ := List.pairwise_cons.mp hlater
    obtain ⟨hone, hplaced⟩ := h.toPlaced.behind hbefore
    rw [hleft]
    refine ⟨.inr ⟨hmany, position, hmem, fun entry hentry => ?_, rfl⟩, hone, hplaced, hafter⟩
    -- The other entries have their positions behind the one that was met first.
    rcases List.mem_append.mp (h.placed entry hentry) with hearlier | hbehind
    · exact absurd hentry (hbefore entry hearlier)
    · rcases List.mem_cons.mp hbehind with rfl | hbehind
      · exact Nat.le_refl _
      · exact hfirst entry hbehind

/-! ## Guards over a clock that never goes back -/

/-- The guard holds no more than it may, its entries have their positions in the queue, and no
position is still to come. -/
structure InLine (now : Instant) (g : Guard) : Prop where
  few : g.entries.length ≤ g.capacity
  lined : Lined g.entries g.order
  past : ∀ position ∈ g.order, position.2 ≤ now

namespace InLine

variable {now later : Instant} {g : Guard}

/-- A new guard is in line. -/
theorem of_new (ttl maxEntries : Nat) (now : Instant) : (new ttl maxEntries).InLine now :=
  ⟨Nat.zero_le _, ⟨List.nodup_nil, nofun, List.Pairwise.nil⟩, nofun⟩

/-- Time may pass. -/
theorem mono (h : g.InLine now) (hle : now ≤ later) : g.InLine later :=
  ⟨h.few, h.lined, fun position hposition => Nat.le_trans (h.past position hposition) hle⟩

/-- The guard is within its bound. -/
theorem bounded (h : g.InLine now) : g.Bounded := ⟨h.few, h.lined.toPlaced⟩

/-- A mark evicts an oldest entry, if there is one too many. -/
theorem spares (h : g.InLine now) (id : String) :
    Spares g.capacity (withMark g.entries now id) (g.mark now id).entries :=
  ((h.lined.withMark h.past id).evict (length_withMark_le h.few now id)).1

/-- A mark that is set now keeps a guard in line. -/
theorem mark (h : g.InLine now) (id : String) : (g.mark now id).InLine now := by
  refine ⟨(h.bounded.mark now id).few, ?lined, ?past⟩
  case lined =>
    have hlined :=
      ((h.lined.withMark h.past id).evict (length_withMark_le h.few now id)).2
    unfold Guard.mark
    dsimp only
    split
    · exact hlined.compact
    · exact hlined
  case past =>
    intro position hposition
    rcases List.mem_append.mp ((mark_order_sublist g now id).subset hposition) with hold | hmarked
    · exact h.past position hold
    · obtain rfl := List.mem_singleton.mp hmarked
      exact Nat.le_refl _

/-- A guard stays in line over each call. -/
theorem step (h : g.InLine now) {g' : Guard} {mark? : Option Mark}
    (heffect : Effect now g mark? g') : g'.InLine now := by
  cases heffect with
  | keep => exact h
  | drop select order horder =>
    refine ⟨(h.bounded.filter select horder).few, ?_, ?_⟩
    · rcases horder with rfl | rfl
      · exact h.lined.filter select
      · exact (h.lined.filter select).compact
    · rcases horder with rfl | rfl
      · exact h.past
      · exact fun position hposition => h.past position (List.mem_filter.mp hposition).1
  | mark id => exact h.mark id

end InLine

/-- The guard has become what it is by calls whose instants never went back. -/
def Reachable (ttl maxEntries : Nat) (now : Instant) (g : Guard) : Prop :=
  ∃ calls : List TimedCall, (calls.Pairwise fun a b => a.1 ≤ b.1) ∧
    (∀ call ∈ calls, call.1 ≤ now) ∧ g = (new ttl maxEntries).after calls

namespace Reachable

variable {ttl maxEntries : Nat} {now later : Instant} {g : Guard}

/-- Time may pass. -/
theorem mono (h : g.Reachable ttl maxEntries now) (hle : now ≤ later) :
    g.Reachable ttl maxEntries later := by
  obtain ⟨calls, hordered, hpast, rfl⟩ := h
  exact ⟨calls, hordered, fun call hcall => Nat.le_trans (hpast call hcall) hle, rfl⟩

/-- One more call may be made. -/
theorem perform (h : g.Reachable ttl maxEntries now) (call : GuardCall) :
    (call.perform now g).2.Reachable ttl maxEntries now := by
  obtain ⟨calls, hordered, hpast, rfl⟩ := h
  refine ⟨calls ++ [(now, call)], ?_, ?_, by rw [after_append]; rfl⟩
  · refine List.pairwise_append.mpr ⟨hordered, List.pairwise_singleton _ _, ?_⟩
    intro earlier hearlier last hlast
    obtain rfl := List.mem_singleton.mp hlast
    exact hpast earlier hearlier
  · intro made hmade
    rcases List.mem_append.mp hmade with hold | hnew
    · exact hpast made hold
    · obtain rfl := List.mem_singleton.mp hnew
      exact Nat.le_refl _

/-- The limits are those that the guard was made with. -/
theorem limits (h : g.Reachable ttl maxEntries now) :
    g.ttl = ttl ∧ g.capacity = max 1 maxEntries := by
  obtain ⟨calls, -, -, rfl⟩ := h
  exact after_limits (new ttl maxEntries) calls

/-- Calls in a row whose instants never go back keep a guard in line. -/
theorem inLine (h : g.Reachable ttl maxEntries now) : g.InLine now := by
  obtain ⟨calls, hordered, hpast, rfl⟩ := h
  induction calls using List.reverseRecOn generalizing now with
  | nil => exact .of_new ttl maxEntries now
  | append_singleton calls call ih =>
    obtain ⟨hbefore, -, hlast⟩ := List.pairwise_append.mp hordered
    rw [after_append]
    exact ((ih hbefore fun earlier hearlier => hlast earlier hearlier call (by simp)).step
      (perform_effect call.2 call.1 _)).mono (hpast call (by simp))

end Reachable

/-! ## A mark that is withdrawn -/

/-- What may be left of the entries of the other ids when an id was marked and forgotten again: all
of them, or if there was no room for the mark, all but one that is not younger than any other. -/
def SparesOthers (capacity : Nat) (others left : List Mark) : Prop :=
  left = others ∨
    (capacity ≤ others.length ∧ ∃ oldest ∈ others, (∀ entry ∈ others, oldest.2 ≤ entry.2) ∧
      left = dropEntry others oldest.1)

/-- The order in which the entries of two ids are dropped does not matter. -/
theorem dropEntry_comm (entries : List Mark) (a b : String) :
    dropEntry (dropEntry entries a) b = dropEntry (dropEntry entries b) a := by
  simp only [dropEntry, List.filter_filter, Bool.and_comm]

/-- An entry that was dropped is not dropped again. -/
theorem dropEntry_of_absent {entries : List Mark} {id : String}
    (h : ∀ entry ∈ entries, entry.1 ≠ id) : dropEntry entries id = entries :=
  List.filter_eq_self.mpr fun entry hmem => decide_eq_true (h entry hmem)

/-- The entry of a new mark can be dropped again. -/
theorem dropEntry_withMark (entries : List Mark) (now : Instant) (id : String) :
    dropEntry (withMark entries now id) id = dropEntry entries id := by
  simp [dropEntry, withMark]

/-- Marking an id and forgetting it again costs the others one entry at most. -/
theorem InLine.sparesOthers {now : Instant} {g : Guard} (h : g.InLine now) (id : String) :
    SparesOthers g.capacity (dropEntry g.entries id) ((g.mark now id).forget id).entries := by
  change SparesOthers _ _ (dropEntry (g.mark now id).entries id)
  rcases h.spares id with ⟨-, hleft⟩ | ⟨hmany, oldest, hmem, holdest, hleft⟩
  · rw [hleft, dropEntry_withMark]
    exact .inl rfl
  · rw [hleft, dropEntry_comm, dropEntry_withMark]
    rcases mem_withMark.mp hmem with ⟨hheld, hne⟩ | rfl
    · refine .inr ⟨?_, oldest, mem_dropEntry.mpr ⟨hheld, hne⟩, fun entry hentry => ?_, rfl⟩
      · simp only [withMark, List.length_append, List.length_singleton] at hmany
        omega
      · exact holdest entry (mem_withMark.mpr (.inl (mem_dropEntry.mp hentry)))
    · -- The new mark was evicted itself, by a position left behind at the same instant.
      exact .inl (dropEntry_of_absent fun entry hentry => (mem_dropEntry.mp hentry).2)

end MarketFeed.Guard
