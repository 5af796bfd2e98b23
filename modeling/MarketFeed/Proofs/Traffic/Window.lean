import MarketFeed.Proofs.Traffic.Marks
import MarketFeed.Proofs.Traffic.Record
import Mathlib.Data.Finset.Card

/-!
# One output for each id and window

An id that was marked is not marked again for the time to live, as long as its entry stays on
the guard. It leaves the guard early in two cases only: another id needs the room, or the
output was refused and the mark is withdrawn. If the guard has room for all ids of the run, and
no mark is withdrawn so late that the id may have been marked again since, then the marks that
deliveries hold of one id are apart by the time to live at least; so are the marks of all
outputs that were accepted.

Withdrawing is the step that endangers this: it drops whatever entry the id has, be it the
entry of another delivery. That the sink answers in time is not enough: a delivery that is held up
between the answer and the withdrawal of its mark does the same harm.
-/

namespace MarketFeed

namespace Traffic

variable {ι : Type}

/-- Two instants are apart by the time to live at least. -/
def Apart (ttl : Nat) (a b : Instant) : Prop := a + ttl ≤ b ∨ b + ttl ≤ a

instance (ttl : Nat) (a b : Instant) : Decidable (Apart ttl a b) :=
  inferInstanceAs (Decidable (_ ∨ _))

/-- At most as many ids are marked as the guard may hold. -/
def FewIds (maxEntries : Nat) (moves : List (Move ι)) : Prop :=
  (committedIds moves).toFinset.card ≤ maxEntries

instance (maxEntries : Nat) (moves : List (Move ι)) : Decidable (FewIds maxEntries moves) :=
  inferInstanceAs (Decidable (_ ≤ _))

/-- Fewer moves mark no more ids. -/
theorem FewIds.of_snoc {maxEntries : Nat} {moves : List (Move ι)} {move : Move ι}
    (h : FewIds maxEntries (moves ++ [move])) : FewIds maxEntries moves := by
  refine (Finset.card_le_card fun id hid => ?_).trans h
  rw [List.mem_toFinset] at hid ⊢
  exact committedIds_subset moves move hid

/-- A mark that is withdrawn has not expired. The call that failed has then returned within the time
to live; that alone would not do, as the withdrawal is a later step. -/
def PromptFailures (ttl : Nat) (moves : List (Move ι)) : Prop :=
  ∀ i marked now, .withdrawn i marked now ∈ moves → now < marked + ttl

/-- Fewer moves withdraw no more marks. -/
theorem PromptFailures.of_snoc {ttl : Nat} {moves : List (Move ι)} {move : Move ι}
    (h : PromptFailures ttl (moves ++ [move])) : PromptFailures ttl moves :=
  fun i marked now hmem => h i marked now (List.mem_append_left _ hmem)

/-- The marks of a run with room for all ids it has marked: each mark that has not expired has
its entry on the guard, and the marks of one id are apart. -/
structure Spaced (ttl maxEntries : Nat) (moves : List (Move ι)) (t : Traffic ι) : Prop where
  held : t.Held
  sameTtl : t.shared.guard.ttl = ttl
  room : t.shared.guard.capacity = max 1 maxEntries
  known : ∀ entry ∈ t.shared.guard.entries, entry.1 ∈ committedIds moves
  past : ∀ i id marked, t.marks i = some (id, marked) → marked ≤ t.shared.instant
  kept : ∀ i id marked, t.marks i = some (id, marked) → t.shared.instant < marked + ttl →
    (id, marked) ∈ t.shared.guard.entries
  apart : ∀ i j, i ≠ j → ∀ id a b, t.marks i = some (id, a) → t.marks j = some (id, b) →
    Apart ttl a b

namespace Spaced

variable {ttl maxEntries : Nat} {moves : List (Move ι)} {t t' : Traffic ι} {move : Move ι}

/-- An entry whose mark has not expired is fresh. -/
theorem fresh (h : t.Spaced ttl maxEntries moves) {marked : Instant}
    (hpast : marked ≤ t.shared.instant) (hsoon : t.shared.instant < marked + ttl) :
    t.shared.guard.isFresh t.shared.instant marked = true := by
  rw [Guard.isFresh, h.sameTtl, decide_eq_true_eq]
  exact Nat.sub_lt_left_of_lt_add hpast hsoon

/-- All marks of an id that is not live have expired. -/
theorem expired (h : t.Spaced ttl maxEntries moves) {i : ι} {id : String} {marked : Instant}
    (hmark : t.marks i = some (id, marked))
    (hlive : t.shared.guard.isLive t.shared.instant id = false) :
    marked + ttl ≤ t.shared.instant := by
  by_contra hdue
  have hsoon : t.shared.instant < marked + ttl := Nat.not_le.mp hdue
  have hentry := h.kept _ _ _ hmark hsoon
  have hfresh := h.fresh (h.past _ _ _ hmark) hsoon
  rw [Guard.isLive_of_fresh h.held.oneEach hentry hfresh] at hlive
  cases hlive

/-- With room for all ids, marking evicts nothing. -/
theorem mark_entries (h : t.Spaced ttl maxEntries moves) {i : ι} {id : String}
    (hfew : FewIds maxEntries (moves ++ [.committed i id])) :
    (t.shared.guard.mark t.shared.instant id).entries =
      Guard.withMark t.shared.guard.entries t.shared.instant id := by
  refine Guard.mark_entries ?_
  have hone := Guard.oneEach_withMark h.held.oneEach t.shared.instant id
  have hids : ((Guard.withMark t.shared.guard.entries t.shared.instant id).map Prod.fst).toFinset ⊆
      (committedIds (moves ++ [Move.committed i id])).toFinset := by
    intro name hname
    obtain ⟨entry, hmem, rfl⟩ := List.mem_map.mp (List.mem_toFinset.mp hname)
    rw [List.mem_toFinset]
    rcases Guard.mem_withMark.mp hmem with ⟨hold, -⟩ | rfl
    · exact committedIds_subset _ _ (h.known _ hold)
    · simp [committedIds, Move.committed?]
  calc (Guard.withMark t.shared.guard.entries t.shared.instant id).length
      = ((Guard.withMark t.shared.guard.entries t.shared.instant id).map
          Prod.fst).toFinset.card := by
        rw [List.toFinset_card_of_nodup hone, List.length_map]
    _ ≤ (committedIds (moves ++ [Move.committed i id])).toFinset.card := Finset.card_le_card hids
    _ ≤ maxEntries := hfew
    _ ≤ t.shared.guard.capacity := h.room ▸ le_max_right 1 maxEntries

/-- Tidying the guard keeps the marks spaced. -/
theorem tidy (h : t.Spaced ttl maxEntries moves) (hheld : t'.Held) (hmarks : t'.marks = t.marks)
    (hclock : t.shared.instant ≤ t'.shared.instant)
    (hguard : Guard.Tidied t.shared.instant t.shared.guard t'.shared.guard) :
    t'.Spaced ttl maxEntries (moves ++ [move]) where
  held := hheld
  sameTtl := hguard.ttl.trans h.sameTtl
  room := hguard.capacity.trans h.room
  known := fun entry hmem =>
    committedIds_subset _ _ (h.known entry (hguard.sublist.subset hmem))
  past := by
    rw [hmarks]
    exact fun i id marked hmark => (h.past i id marked hmark).trans hclock
  kept := by
    rw [hmarks]
    intro i id marked hmark hsoon
    have hsoon' : t.shared.instant < marked + ttl := Nat.lt_of_le_of_lt hclock hsoon
    exact hguard.fresh _ (h.kept i id marked hmark hsoon')
      (h.fresh (h.past i id marked hmark) hsoon')
  apart := by
    rw [hmarks]
    exact h.apart

variable [DecidableEq ι] {setting : Setting}

/-- Marking an id that is not live keeps the marks spaced: the earlier marks of the id have
expired. -/
theorem mark (h : t.Spaced ttl maxEntries moves) (hheld : t'.Held) {i : ι} {id : String}
    (hfew : FewIds maxEntries (moves ++ [.committed i id]))
    (hmarks : t'.marks = Function.update t.marks i (some (id, t.shared.instant)))
    (hlive : t.shared.guard.isLive t.shared.instant id = false)
    (hclock : t'.shared.instant = t.shared.instant)
    (hguard : t'.shared.guard = t.shared.guard.mark t.shared.instant id) :
    t'.Spaced ttl maxEntries (moves ++ [.committed i id]) := by
  have hentries := h.mark_entries hfew
  rw [← hguard] at hentries
  refine ⟨hheld, (congrArg Guard.ttl hguard).trans h.sameTtl,
    (congrArg Guard.capacity hguard).trans h.room, fun entry hmem => ?known,
    fun j name marked hmark => ?past, fun j name marked hmark hsoon => ?kept,
    fun j k hne name a b ha hb => ?apart⟩
  case known =>
    rw [hentries] at hmem
    rcases Guard.mem_withMark.mp hmem with ⟨hold, -⟩ | rfl
    · exact committedIds_subset _ _ (h.known _ hold)
    · simp [committedIds, Move.committed?]
  case past =>
    rw [hclock]
    rw [hmarks, update_marks_eq_some] at hmark
    rcases hmark with ⟨-, hnew⟩ | ⟨-, hold⟩
    · cases hnew
      exact Nat.le_refl _
    · exact h.past j name marked hold
  case kept =>
    rw [hentries]
    rw [hclock] at hsoon
    rw [hmarks, update_marks_eq_some] at hmark
    rcases hmark with ⟨-, hnew⟩ | ⟨-, hold⟩
    · cases hnew
      exact Guard.mem_withMark.mpr (.inr rfl)
    · refine Guard.mem_withMark.mpr (.inl ⟨h.kept j name marked hold hsoon, ?_⟩)
      rintro rfl
      exact Nat.not_lt.mpr (h.expired hold hlive) hsoon
  case apart =>
    rw [hmarks, update_marks_eq_some] at ha hb
    rcases ha with ⟨rfl, hnew⟩ | ⟨-, hold⟩ <;> rcases hb with ⟨rfl, hnew'⟩ | ⟨-, hold'⟩
    · exact absurd rfl hne
    · cases hnew
      exact .inr (h.expired hold' hlive)
    · cases hnew'
      exact .inl (h.expired hold hlive)
    · exact h.apart j k hne name a b hold hold'

/-- Withdrawing a mark that has not expired keeps the marks spaced: no other mark of its id is
on the guard. -/
theorem forget (h : t.Spaced ttl maxEntries moves) (hheld : t'.Held) {i : ι} {id : String}
    {marked : Instant} (hmark : t.marks i = some (id, marked))
    (hsoon : t.shared.instant < marked + ttl) (hmarks : t'.marks = Function.update t.marks i none)
    (hclock : t'.shared.instant = t.shared.instant)
    (hguard : t'.shared.guard = t.shared.guard.forget id) :
    t'.Spaced ttl maxEntries (moves ++ [move]) := by
  have hother : ∀ j other, t'.marks j = some other → j ≠ i ∧ t.marks j = some other := by
    intro j other hj
    rw [hmarks, update_marks_eq_some] at hj
    simpa using hj
  refine ⟨hheld, (congrArg Guard.ttl hguard).trans h.sameTtl,
    (congrArg Guard.capacity hguard).trans h.room, fun entry hmem => ?known,
    fun j name marked' hj => hclock ▸ h.past j name marked' (hother j _ hj).2,
    fun j name marked' hj hsoon' => ?kept,
    fun j k hne name a b ha hb => h.apart j k hne name a b (hother j _ ha).2 (hother k _ hb).2⟩
  case known =>
    rw [hguard] at hmem
    exact committedIds_subset _ _ (h.known _ (Guard.mem_dropEntry.mp hmem).1)
  case kept =>
    obtain ⟨hne, hold⟩ := hother j _ hj
    rw [hclock] at hsoon'
    rw [hguard]
    refine Guard.mem_dropEntry.mpr ⟨h.kept j name marked' hold hsoon', ?_⟩
    -- Neither mark has expired, so they cannot be of one id.
    rintro rfl
    rcases h.apart j i hne _ _ _ hold hmark with hapart | hapart
    · exact Nat.not_lt.mpr (hapart.trans (h.past _ _ _ hmark)) hsoon'
    · exact Nat.not_lt.mpr (hapart.trans (h.past _ _ _ hold)) hsoon

/-- A step keeps the marks spaced, if there is room for the id it marks and the mark it withdraws
has not expired. -/
theorem step (h : t.Spaced ttl maxEntries moves) (hfew : FewIds maxEntries (moves ++ [move]))
    (hprompt : PromptFailures ttl (moves ++ [move])) (hstep : Step setting t move t') :
    t'.Spaced ttl maxEntries (moves ++ [move]) := by
  have hheld := h.held.step hstep
  cases hstep.effect h.held.oneEach with
  | tidy hmarks hclock hguard _ => exact h.tidy hheld hmarks hclock hguard
  | mark i id _ hmarks hlive hclock hguard hmove =>
    subst hmove
    exact h.mark hheld hfew hmarks hlive hclock hguard
  | forget i id marked hmark hmarks hclock hguard hmove =>
    subst hmove
    exact h.forget hheld hmark (hprompt i marked _ (by simp)) hmarks hclock hguard

end Spaced

section Run

variable [DecidableEq ι] {setting : Setting} {ttl maxEntries : Nat} {s : Shared}
  {moves : List (Move ι)} {t : Traffic ι}

/-- The marks of a run are spaced, if there is room for all its ids and no mark is withdrawn
after it has expired. -/
theorem Run.spaced (hrun : Run setting (.start ttl maxEntries s) moves t)
    (hfew : FewIds maxEntries moves) (hprompt : PromptFailures ttl moves) :
    t.Spaced ttl maxEntries moves := by
  induction hrun with
  | nil =>
    exact ⟨⟨List.nodup_nil, by simp [start, Guard.new]⟩, rfl, rfl, by simp [start, Guard.new],
      by simp [marks, start], by simp [marks, start], by simp [marks, start]⟩
  | @snoc moves t t' move _ hstep ih =>
    exact (ih hfew.of_snoc hprompt.of_snoc).step hfew hprompt hstep

/-- A delivery whose output was accepted holds the mark of its id. -/
theorem Run.mark_of_publication (hrun : Run setting (.start ttl maxEntries s) moves t)
    {p : Publication ι} (hp : p ∈ publications moves) :
    t.marks p.delivery = some (p.output.eventId, p.marked) := by
  have haccepted := (hrun.published_iff _ _ _).mp (mem_publications.mp hp)
  obtain ⟨⟨intake, progress⟩, hpassage, hprogress⟩ := Option.bind_eq_some_iff.mp haccepted
  have hid := ((hrun.sound _ _ hpassage).emits hprogress).eventId
  simp [marks, hpassage, Passage.mark?, progress.mark?_of_accepted? hprogress, hid]

/-- At most one output for each id and window: if a run marks no more ids than the guard may
hold, and each mark that is withdrawn is withdrawn within its time to live, then any two outputs
that were accepted for one id were marked at least the time to live apart. -/
theorem Run.publications_apart (hrun : Run setting (.start ttl maxEntries s) moves t)
    (hfew : FewIds maxEntries moves) (hprompt : PromptFailures ttl moves) :
    (publications moves).Pairwise fun p q =>
      p.output.eventId = q.output.eventId → Apart ttl p.marked q.marked := by
  have hspaced := hrun.spaced hfew hprompt
  refine (List.pairwise_map.mp hrun.publications_nodup).imp_of_mem ?_
  intro p q hp hq hne hid
  have hmark := hrun.mark_of_publication hp
  rw [hid] at hmark
  exact hspaced.apart _ _ hne _ _ _ hmark (hrun.mark_of_publication hq)

/-- The id of a refused output is marked again in its window, and once more when that is over. -/
theorem Run.publications_apart_of_refused :
    ∃ (moves : List (Move Nat)) (t : Traffic Nat),
      Run ⟨false, fun _ _ => False⟩ (.start 10 1 ⟨.new 10 1, 0, 0, 0, [], []⟩) moves t ∧
        FewIds 1 moves ∧ PromptFailures 10 moves ∧
        (publications moves).map (fun p => (p.delivery, p.output.eventId, p.marked)) =
          [(0, "a", 5), (1, "a", 20)] ∧
        (publications moves).Pairwise fun p q =>
          p.output.eventId = q.output.eventId → Apart 10 p.marked q.marked := by
  let stray : Intake := .stray "a" none ⟨"in", 0, 0⟩ "not an object"
  have h : Run ⟨false, fun _ _ => False⟩ (.start 10 1 ⟨.new 10 1, 0, 0, 0, [], []⟩)
      ([] : List (Move Nat)) _ := .nil
  have h := h.snoc (.enter (i := 0) stray rfl)
  have h := h.snoc (.advance (i := 0) rfl (.settle rfl))
  have h := h.snoc (.advance (i := 0) rfl (.commit rfl))
  have h := h.snoc (.advance (i := 0) rfl .refuse)
  have h := h.snoc (.ambient (.elapse 5 0 (by decide)))
  have h := h.snoc (.advance (i := 0) rfl .withdraw)
  have h : Run _ _ _ ⟨⟨⟨10, 1, [], [("a", 0)]⟩, 5, 0, _, _, _⟩, _⟩ := h
  have h := h.snoc (.advance (i := 0) rfl .retry)
  have h := h.snoc (.advance (i := 0) rfl (.settle rfl))
  have h := h.snoc (.advance (i := 0) rfl (.commit rfl))
  have h := h.snoc (.enter (i := 1) stray rfl)
  have h := h.snoc (.ambient (.elapse 20 0 (by decide)))
  have h : Run _ _ _ ⟨⟨⟨10, 1, [("a", 5)], [("a", 0), ("a", 5)]⟩, 20, 0, _, _, _⟩, _⟩ := h
  have h := h.snoc (.advance (i := 1) rfl (.settle rfl))
  have h := h.snoc (.advance (i := 0) rfl .publish)
  have h := h.snoc (.advance (i := 1) rfl (.commit rfl))
  have h := h.snoc (.advance (i := 1) rfl .publish)
  refine ⟨_, _, h, ?few, ?prompt, ?two, h.publications_apart ?few ?prompt⟩
  case few => decide
  case prompt =>
    intro i marked now hmem
    simp only [List.nil_append, List.cons_append, List.mem_cons, reduceCtorEq,
      Move.withdrawn.injEq, List.not_mem_nil, or_false, false_or] at hmem
    obtain ⟨-, rfl, rfl⟩ := hmem
    decide
  case two => decide +kernel

/-- If a step is the answer of the sink to a delivery, it comes within the time to live of the
mark. -/
def AnsweredInTime (ttl : Nat) (t : Traffic ι) (move : Move ι) : Prop :=
  ∀ i mark, move.answered? = some i → t.marks i = some mark → t.shared.instant < mark.2 + ttl

/-- A run in which the sink always answers in time. -/
inductive PromptRun (setting : Setting) (ttl : Nat) (t₀ : Traffic ι) :
    List (Move ι) → Traffic ι → Prop
  | nil : PromptRun setting ttl t₀ [] t₀
  | snoc {moves : List (Move ι)} {t t' : Traffic ι} {move : Move ι}
      (hrun : PromptRun setting ttl t₀ moves t) (hstep : Step setting t move t')
      (hanswer : AnsweredInTime ttl t move) : PromptRun setting ttl t₀ (moves ++ [move]) t'

/-- The sink answers in time, but one delivery is held up before it withdraws its mark. It takes the
mark of a second delivery with it, whose output was accepted a moment ago, and the output of a third
one is accepted in the same window. -/
theorem PromptRun.publications_not_apart :
    ∃ (moves : List (Move Nat)) (t : Traffic Nat),
      PromptRun ⟨false, fun _ _ => False⟩ 10 (.start 10 1 ⟨.new 10 1, 0, 0, 0, [], []⟩) moves t ∧
        FewIds 1 moves ∧
        (publications moves).map (fun p => (p.delivery, p.output.eventId, p.marked)) =
          [(1, "a", 10), (2, "a", 16)] ∧
        ¬ (publications moves).Pairwise fun p q =>
          p.output.eventId = q.output.eventId → Apart 10 p.marked q.marked := by
  let stray : Intake := .stray "a" none ⟨"in", 0, 0⟩ "not an object"
  have h : PromptRun ⟨false, fun _ _ => False⟩ 10 (.start 10 1 ⟨.new 10 1, 0, 0, 0, [], []⟩)
      ([] : List (Move Nat)) _ := .nil
  have h := h.snoc (.enter (i := 0) stray rfl) nofun
  have h := h.snoc (.advance (i := 0) rfl (.settle rfl)) nofun
  have h := h.snoc (.advance (i := 0) rfl (.commit rfl)) nofun
  have h := h.snoc (.advance (i := 0) rfl .refuse) (by rintro _ _ ⟨⟩ ⟨⟩; decide)
  have h := h.snoc (.ambient (.elapse 10 0 (by decide))) nofun
  have h : PromptRun _ _ _ _ ⟨⟨⟨10, 1, [("a", 0)], [("a", 0)]⟩, 10, 0, _, _, _⟩, _⟩ := h
  have h := h.snoc (.enter (i := 1) stray rfl) nofun
  have h := h.snoc (.advance (i := 1) rfl (.settle rfl)) nofun
  have h := h.snoc (.advance (i := 1) rfl (.commit rfl)) nofun
  have h := h.snoc (.advance (i := 1) rfl .publish) (by rintro _ _ ⟨⟩ ⟨⟩; decide)
  have h := h.snoc (.ambient (.elapse 15 0 (by decide))) nofun
  have h := h.snoc (.advance (i := 0) rfl .withdraw) nofun
  have h := h.snoc (.ambient (.elapse 16 0 (by decide))) nofun
  have h : PromptRun _ _ _ _ ⟨⟨⟨10, 1, [], _⟩, 16, 0, _, _, _⟩, _⟩ := h
  have h := h.snoc (.enter (i := 2) stray rfl) nofun
  have h := h.snoc (.advance (i := 2) rfl (.settle rfl)) nofun
  have h := h.snoc (.advance (i := 2) rfl (.commit rfl)) nofun
  have h := h.snoc (.advance (i := 2) rfl .publish) (by rintro _ _ ⟨⟩ ⟨⟩; decide)
  exact ⟨_, _, h, by decide, by decide +kernel, by decide +kernel⟩

end Run

end Traffic

end MarketFeed
