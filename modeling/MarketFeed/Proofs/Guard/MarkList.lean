import MarketFeed.Proofs.Guard.Calls

/-!
# The guard as a plain list of marks

The same guard without a queue: a single list of marks, the oldest first. Setting a mark moves
its id to the back, and the first mark goes if there are too many; nothing is left behind
anywhere.

The guard answers every row of calls as this list does, if no id is marked twice at one instant.
Otherwise the two may differ: an id that is forgotten and marked again at the same instant has a
position in the queue that is older than its mark.
-/

namespace MarketFeed

open Rehearsal

/-- Marks in the order in which they were set, the oldest first. -/
structure MarkList where
  ttl : Nat
  capacity : Nat
  marks : List Mark

namespace MarkList

/-- A list without marks, which may hold one at least. -/
def new (ttl maxEntries : Nat) : MarkList := ⟨ttl, max 1 maxEntries, []⟩

/-- The id is in the list, and the age of its mark is below the time to live. -/
def holds (l : MarkList) (now : Instant) (id : String) : Bool :=
  l.marks.any fun mark => mark.1 = id && now - mark.2 < l.ttl

/-- Take an id off the list. -/
def delete (l : MarkList) (id : String) : MarkList :=
  { l with marks := l.marks.filter fun mark => mark.1 ≠ id }

/-- Move an id to the back of the list, and drop the first one if there are too many. -/
def insert (l : MarkList) (now : Instant) (id : String) : MarkList :=
  let marks := (l.delete id).marks ++ [(id, now)]
  { l with marks := if l.capacity < marks.length then marks.tail else marks }

/-- The answer of the list to a call, and the list after it. -/
def perform (l : MarkList) (now : Instant) : GuardCall → GuardAnswer × MarkList
  | .seen id => if l.holds now id then (.truth true, l) else (.truth false, l.delete id)
  | .mark id => (.nothing, l.insert now id)
  | .tryMark id => if l.holds now id then (.truth false, l) else (.truth true, l.insert now id)
  | .forget id => (.nothing, l.delete id)
  | .sweep =>
    (.count (l.marks.countP fun mark => l.ttl ≤ now - mark.2),
      { l with marks := l.marks.filter fun mark => now - mark.2 < l.ttl })
  | .size => (.size l.marks.length, l)

/-- The answers of the list to calls in a row. -/
def answers (l : MarkList) : List TimedCall → List GuardAnswer
  | [] => []
  | (now, call) :: rest => (l.perform now call).1 :: (l.perform now call).2.answers rest

end MarkList

namespace Guard

/-- The entries of the guard as a list of marks. -/
def markList (g : Guard) : MarkList := ⟨g.ttl, g.capacity, g.entries⟩

variable {g : Guard} {marks : List Mark}

/-- The ids that the list holds are those with a live entry. -/
theorem holds_markList (hone : OneEach g.entries) (now : Instant) (id : String) :
    g.markList.holds now id = g.isLive now id := by
  rw [Bool.eq_iff_iff]
  constructor
  · intro h
    obtain ⟨⟨_, marked⟩, hmem, hfresh⟩ := List.any_eq_true.mp h
    simp only [Bool.and_eq_true, decide_eq_true_eq] at hfresh
    obtain ⟨rfl, hfresh⟩ := hfresh
    exact isLive_of_fresh hone hmem (decide_eq_true hfresh)
  · intro h
    obtain ⟨marked, hmem, hfresh⟩ := exists_fresh_of_isLive h
    refine List.any_eq_true.mpr ⟨(id, marked), hmem, ?_⟩
    exact Bool.and_eq_true_iff.mpr ⟨decide_eq_true rfl, hfresh⟩

/-- A mark that was not set before is set as on the list. -/
theorem insert_markList (h : g.Orderly marks) {now : Instant} {id : String}
    (hnew : (id, now) ∉ marks) : g.markList.insert now id = (g.mark now id).markList := by
  have hlength : (withMark g.entries now id).length ≤ g.capacity + 1 := by
    have hothers : (dropEntry g.entries id).length ≤ g.entries.length := List.length_filter_le ..
    have hfew := h.few
    simp only [withMark, List.length_append, List.length_singleton]
    omega
  have hnewest : newest g.capacity (withMark g.entries now id) =
      if g.capacity < (withMark g.entries now id).length then (withMark g.entries now id).tail
      else withMark g.entries now id := by
    split
    · rename_i hmany
      have hone : (withMark g.entries now id).length - g.capacity = 1 := by omega
      rw [newest, hone, List.drop_one]
    · rename_i hfew
      exact newest_of_length_le (Nat.not_lt.mp hfew)
  have hentries := (h.mark_entries hnew).trans hnewest
  simp only [MarkList.insert, markList, hentries]
  rfl

/-- Sweeping drops as many entries as the list has expired marks, and keeps the others. -/
theorem sweep_markList (g : Guard) (now : Instant) :
    g.markList.perform now .sweep =
      ((GuardCall.sweep.perform now g).1, (GuardCall.sweep.perform now g).2.markList) := by
  have hcount := List.length_eq_countP_add_countP (fun mark : Mark => g.isFresh now mark.2)
    (l := g.entries)
  have hexpired : (g.entries.countP fun mark => g.ttl ≤ now - mark.2) =
      g.entries.length - (g.entries.filter fun mark => g.isFresh now mark.2).length := by
    rw [← List.countP_eq_length_filter]
    simp only [isFresh, decide_eq_true_eq, Nat.not_lt] at hcount ⊢
    omega
  change (GuardAnswer.count (g.entries.countP fun mark => g.ttl ≤ now - mark.2), _) = _
  rw [hexpired]
  rfl

/-- A guard in order answers a call as its list does, and the two stay alike; the call must not
set a mark that was set before. -/
theorem perform_markList (h : g.Orderly marks) (now : Instant) (call : GuardCall)
    (hnew : (marks ++ (g.inserted? now call).toList).Nodup) :
    g.markList.perform now call =
      ((call.perform now g).1, (call.perform now g).2.markList) := by
  have hholds := holds_markList h.oneEach now
  have hmark : ∀ id, g.inserted? now call = some (id, now) →
      g.markList.insert now id = (g.mark now id).markList :=
    fun id hinserted => insert_markList h (not_mem_of_inserted hnew hinserted)
  cases call with
  | seen id =>
    simp only [MarkList.perform, hholds, GuardCall.perform, seen]
    split <;> rfl
  | mark id => simp only [MarkList.perform, GuardCall.perform, hmark id rfl]
  | tryMark id =>
    cases hlive : g.isLive now id with
    | true => simp [MarkList.perform, GuardCall.perform, tryMark, hholds, hlive]
    | false =>
      have hinserted : g.inserted? now (.tryMark id) = some (id, now) := by
        simp [inserted?, tryMark, hlive]
      simp [MarkList.perform, GuardCall.perform, tryMark, hholds, hlive, hmark id hinserted]
  | forget id => rfl
  | sweep => exact sweep_markList g now
  | size => rfl

/-- A guard in order answers calls in a row as its list does. -/
theorem answers_markList (h : g.Orderly marks) (calls : List TimedCall)
    (hnew : (marks ++ g.insertions calls).Nodup) : g.answers calls = g.markList.answers calls := by
  induction calls generalizing marks g with
  | nil => rfl
  | cons call rest ih =>
    obtain ⟨now, call⟩ := call
    simp only [insertions, ← List.append_assoc] at hnew
    have hnow : (marks ++ (g.inserted? now call).toList).Nodup :=
      hnew.sublist (List.sublist_append_left _ _)
    have hstep := perform_markList h now call hnow
    have hrest := ih (h.step (perform_effect call now g) hnow) hnew
    simp only [answers, MarkList.answers, hstep, hrest]

/-- The guard refines a plain list of marks: whatever calls it gets, at whatever instants, it
answers as the list does, as long as no id is marked twice at one instant. -/
theorem answers_eq_markList (ttl maxEntries : Nat) (calls : List TimedCall)
    (hnew : ((new ttl maxEntries).insertions calls).Nodup) :
    (new ttl maxEntries).answers calls = (MarkList.new ttl maxEntries).answers calls :=
  answers_markList (orderly_new ttl maxEntries) calls (by simpa using hnew)

/-- A guard for two ids, over a clock that goes back once: an id is marked again, one is evicted
past the position this has left behind, one is forgotten and one expires. -/
theorem answers_eq_markList_of_remarked :
    let calls : List TimedCall :=
      [(0, .mark "a"), (1, .tryMark "b"), (2, .mark "a"), (3, .tryMark "c"), (4, .seen "a"),
        (4, .seen "b"), (5, .forget "c"), (6, .tryMark "c"), (1, .seen "c"), (12, .tryMark "a"),
        (12, .size), (17, .sweep), (18, .seen "a")]
    ((new 10 2).insertions calls).Nodup ∧
      (new 10 2).answers calls =
        [.nothing, .truth true, .nothing, .truth true, .truth true, .truth false, .nothing,
          .truth true, .truth true, .truth true, .size 2, .count 1, .truth true] ∧
      (new 10 2).answers calls = (MarkList.new 10 2).answers calls := by
  intro calls
  have hnew : ((new 10 2).insertions calls).Nodup := by decide
  exact ⟨hnew, by rfl, answers_eq_markList 10 2 calls hnew⟩

end Guard

end MarketFeed
