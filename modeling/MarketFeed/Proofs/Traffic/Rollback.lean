import MarketFeed.Proofs.Traffic.Window

/-!
# What a rollback takes with it

A delivery whose output was refused withdraws its mark by dropping the entry of its id, whoever
set it. As long as its own mark has not expired and no entry was evicted, this is its own entry,
and the marks of all other deliveries stay on the guard.

Neither condition can be spared. When the sink answers late, or when another id needed the room,
the id may have been marked again meanwhile; the rollback then drops the mark of a delivery that
has not failed, and the id is no longer live.
-/

namespace MarketFeed

namespace Traffic

variable {ι : Type} {ttl maxEntries : Nat} {s : Shared} {moves : List (Move ι)}
  {t t' : Traffic ι} {i : ι} {marked now : Instant}

/-- The mark that a delivery withdraws in time is the entry of its id, and no other delivery has
set it. -/
theorem Spaced.entry_unique (h : t.Spaced ttl maxEntries moves) {id : String}
    (hown : t.marks i = some (id, marked)) (hsoon : t.shared.instant < marked + ttl) {j : ι}
    (hne : j ≠ i) {instant : Instant} (hmark : t.marks j = some (id, instant)) :
    (id, instant) ∉ t.shared.guard.entries := by
  intro hentry
  have hfirst := Guard.markedAt?_of_mem h.held.oneEach hentry
  have hsecond := Guard.markedAt?_of_mem h.held.oneEach (h.kept _ _ _ hown hsoon)
  obtain rfl : instant = marked := Option.some.inj (hfirst.symm.trans hsecond)
  -- Two marks of one id at one instant are apart only if the time to live is zero.
  rcases h.apart j i hne _ _ _ hmark hown with hapart | hapart <;>
    exact Nat.not_lt.mpr (hapart.trans (h.past _ _ _ hown)) hsoon

/-- Over a step, every entry that is the mark of a delivery other than one stays on the guard, and
its id is live until the mark expires. -/
def OthersKept (ttl : Nat) (i : ι) (t t' : Traffic ι) : Prop :=
  ∀ j mark, j ≠ i → t.marks j = some mark → mark ∈ t.shared.guard.entries →
    mark ∈ t'.shared.guard.entries ∧
      (t'.shared.instant < mark.2 + ttl → (t'.shared.seen mark.1).1 = true)

section Run

variable [DecidableEq ι] {setting : Setting}

/-- A delivery that withdraws a mark holds it, and forgets its id. -/
theorem Run.withdrawn (hrun : Run setting (.start ttl maxEntries s) moves t)
    (hstep : Step setting t (.withdrawn i marked now) t') :
    ∃ id, t.marks i = some (id, marked) ∧ now = t.shared.instant ∧
      t'.shared.instant = t.shared.instant ∧ t'.shared.guard = t.shared.guard.forget id := by
  cases hstep.effect hrun.held.oneEach with
  | tidy _ _ _ hmove => exact hmove.elim
  | mark _ _ _ _ _ _ _ hmove => cases hmove
  | forget i id marked hmark _ hclock hguard hmove =>
    cases hmove
    exact ⟨id, hmark, rfl, hclock, hguard⟩

/-- A rollback withdraws only the delivery's own mark, if there is room for all ids and no mark is
withdrawn after it has expired. -/
theorem Run.others_kept (hrun : Run setting (.start ttl maxEntries s) moves t)
    (hstep : Step setting t (.withdrawn i marked now) t') (hfew : FewIds maxEntries moves)
    (hprompt : PromptFailures ttl (moves ++ [.withdrawn i marked now])) :
    OthersKept ttl i t t' := by
  obtain ⟨id, hown, rfl, hclock, hguard⟩ := hrun.withdrawn hstep
  have hspaced := hrun.spaced hfew hprompt.of_snoc
  have hsoon : t.shared.instant < marked + ttl := hprompt i marked _ (by simp)
  intro j mark hne hmark hentry
  have hstays : mark ∈ t'.shared.guard.entries := by
    rw [hguard]
    refine Guard.mem_dropEntry.mpr ⟨hentry, ?_⟩
    rintro rfl
    exact hspaced.entry_unique hown hsoon hne hmark hentry
  refine ⟨hstays, fun hlate => ?_⟩
  have hlive : t'.shared.guard.isLive t'.shared.instant mark.1 = true := by
    refine Guard.isLive_of_fresh (hrun.held.step hstep).oneEach hstays ?_
    rw [hclock] at hlate
    rw [hclock, hguard]
    exact hspaced.fresh (hspaced.past j mark.1 mark.2 hmark) hlate
  rw [Shared.seen_of_live hlive]

/-- The output for one id is refused after another id was marked: that mark stays. -/
theorem Run.others_kept_of_refused :
    ∃ (moves : List (Move Nat)) (t t' : Traffic Nat),
      Run ⟨false, fun _ _ => False⟩ (.start 10 2 ⟨.new 10 2, 0, 0, 0, [], []⟩) moves t ∧
        Step ⟨false, fun _ _ => False⟩ t (.withdrawn 0 0 5) t' ∧ FewIds 2 moves ∧
        PromptFailures 10 (moves ++ [.withdrawn 0 0 5]) ∧ t.marks 1 = some ("b", 3) ∧
        t.shared.guard.entries = [("a", 0), ("b", 3)] ∧ t'.shared.guard.entries = [("b", 3)] ∧
        OthersKept 10 0 t t' := by
  have h : Run ⟨false, fun _ _ => False⟩ (.start 10 2 ⟨.new 10 2, 0, 0, 0, [], []⟩)
      ([] : List (Move Nat)) _ := .nil
  have h := h.snoc (.enter (i := 0) (.stray "a" none ⟨"in", 0, 0⟩ "not an object") rfl)
  have h := h.snoc (.advance (i := 0) rfl (.settle rfl))
  have h := h.snoc (.advance (i := 0) rfl (.commit rfl))
  have h := h.snoc (.ambient (.elapse 3 0 (by decide)))
  have h : Run _ _ _ ⟨⟨⟨10, 2, [("a", 0)], [("a", 0)]⟩, 3, 0, _, _, _⟩, _⟩ := h
  have h := h.snoc (.enter (i := 1) (.stray "b" none ⟨"in", 1, 0⟩ "not an object") rfl)
  have h := h.snoc (.advance (i := 1) rfl (.settle rfl))
  have h := h.snoc (.advance (i := 1) rfl (.commit rfl))
  have h := h.snoc (.advance (i := 0) rfl .refuse)
  have h := h.snoc (.ambient (.elapse 5 0 (by decide)))
  have h : Run _ _ _
    ⟨⟨⟨10, 2, [("a", 0), ("b", 3)], [("a", 0), ("b", 3)]⟩, 5, 0, _, _, _⟩, _⟩ := h
  refine ⟨_, _, _, h, .advance (i := 0) rfl .withdraw, ?few, ?prompt, rfl, rfl, rfl,
    h.others_kept (.advance (i := 0) rfl .withdraw) ?few ?prompt⟩
  case few => decide
  case prompt =>
    intro i marked now hmem
    simp only [List.nil_append, List.cons_append, List.mem_cons, reduceCtorEq,
      Move.withdrawn.injEq, List.not_mem_nil, or_false, false_or] at hmem
    obtain ⟨-, rfl, rfl⟩ := hmem
    decide

/-- A rollback can take the mark of another delivery with it. In the first run a delivery is told
only after the time to live that its output was refused, in the second another id needed the room;
in both the id was marked again meanwhile. It is then not live, though that mark has not expired. -/
theorem Run.others_not_kept :
    (∃ (moves : List (Move Nat)) (t t' : Traffic Nat),
      Run ⟨false, fun _ _ => False⟩ (.start 10 1 ⟨.new 10 1, 0, 0, 0, [], []⟩) moves t ∧
        Step ⟨false, fun _ _ => False⟩ t (.withdrawn 0 0 15) t' ∧ FewIds 1 moves ∧
        t.marks 1 = some ("a", 15) ∧ t.shared.guard.entries = [("a", 15)] ∧
        t'.shared.guard.entries = [] ∧ (t'.shared.seen "a").1 = false ∧
        ¬ OthersKept 10 0 t t') ∧
      ∃ (moves : List (Move Nat)) (t t' : Traffic Nat),
        Run ⟨false, fun _ _ => False⟩ (.start 10 1 ⟨.new 10 1, 0, 0, 0, [], []⟩) moves t ∧
          Step ⟨false, fun _ _ => False⟩ t (.withdrawn 0 0 2) t' ∧
          PromptFailures 10 (moves ++ [.withdrawn 0 0 2]) ∧
          t.marks 2 = some ("a", 2) ∧ t.shared.guard.entries = [("a", 2)] ∧
          t'.shared.guard.entries = [] ∧ (t'.shared.seen "a").1 = false ∧
          ¬ OthersKept 10 0 t t' := by
  let stray (id : String) : Intake := .stray id none ⟨"in", 0, 0⟩ "not an object"
  have h : Run ⟨false, fun _ _ => False⟩ (.start 10 1 ⟨.new 10 1, 0, 0, 0, [], []⟩)
      ([] : List (Move Nat)) _ := .nil
  have h := h.snoc (.enter (i := 0) (stray "a") rfl)
  have h := h.snoc (.advance (i := 0) rfl (.settle rfl))
  have h := h.snoc (.advance (i := 0) rfl (.commit rfl))
  have h := h.snoc (.advance (i := 0) rfl .refuse)
  constructor
  · have h := h.snoc (.ambient (.elapse 15 0 (by decide)))
    have h : Run _ _ _ ⟨⟨⟨10, 1, [("a", 0)], [("a", 0)]⟩, 15, 0, _, _, _⟩, _⟩ := h
    have h := h.snoc (.enter (i := 1) (stray "a") rfl)
    have h := h.snoc (.advance (i := 1) rfl (.settle rfl))
    have h := h.snoc (.advance (i := 1) rfl (.commit rfl))
    refine ⟨_, _, _, h, .advance (i := 0) rfl .withdraw, by decide, rfl, rfl, rfl, rfl, ?_⟩
    intro hkept
    have hmem := (hkept 1 ("a", 15) (by decide) rfl List.mem_cons_self).1
    cases hmem
  · have h := h.snoc (.ambient (.elapse 1 0 (by decide)))
    have h : Run _ _ _ ⟨⟨⟨10, 1, [("a", 0)], [("a", 0)]⟩, 1, 0, _, _, _⟩, _⟩ := h
    have h := h.snoc (.enter (i := 1) (stray "b") rfl)
    have h := h.snoc (.advance (i := 1) rfl (.settle rfl))
    have h := h.snoc (.advance (i := 1) rfl (.commit rfl))
    have h := h.snoc (.ambient (.elapse 2 0 (by decide)))
    have h : Run _ _ _ ⟨⟨⟨10, 1, [("b", 1)], [("b", 1)]⟩, 2, 0, _, _, _⟩, _⟩ := h
    have h := h.snoc (.enter (i := 2) (stray "a") rfl)
    have h := h.snoc (.advance (i := 2) rfl (.settle rfl))
    have h := h.snoc (.advance (i := 2) rfl (.commit rfl))
    refine ⟨_, _, _, h, .advance (i := 0) rfl .withdraw, ?prompt, rfl, rfl, rfl, rfl, ?_⟩
    case prompt =>
      intro i marked now hmem
      simp only [List.nil_append, List.cons_append, List.mem_cons, reduceCtorEq,
        Move.withdrawn.injEq, List.not_mem_nil, or_false, false_or] at hmem
      obtain ⟨-, rfl, rfl⟩ := hmem
      decide
    intro hkept
    have hmem := (hkept 2 ("a", 2) (by decide) rfl List.mem_cons_self).1
    cases hmem

end Run

end Traffic

end MarketFeed
