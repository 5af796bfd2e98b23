import MarketFeed.Proofs.Guard.Fresh
import Mathlib.Data.List.Induction

/-!
# Cleaning up cannot be noticed

The guard may be swept at any time, and a question that is answered with no drops the expired
entry it was about. Neither can be noticed later: two rows of calls that differ only in such
calls get the same answers to the questions that they have in common, and to the marks they
attempt. The two guards hold the same fresh entries all the time; what else they hold differs,
but is evicted first.
-/

namespace MarketFeed.Guard

open Rehearsal

/-- A call that does nothing but clean up: a sweep, or a question that is answered with no. -/
def CleansUp (g : Guard) (now : Instant) : GuardCall → Prop
  | .sweep => True
  | .seen id => (g.seen now id).1 = false
  | _ => False

/-- A call whose answer tells whether an id is live. -/
def TellsLive : GuardCall → Prop
  | .seen _ => True
  | .tryMark _ => True
  | _ => False

/-- The instants of the calls never go back, and no id is marked twice at one instant. -/
structure Regular (ttl maxEntries : Nat) (calls : List TimedCall) : Prop where
  ordered : calls.Pairwise fun a b => a.1 ≤ b.1
  distinct : ((new ttl maxEntries).insertions calls).Nodup

/-- Calls are regular if they and later ones are. -/
theorem Regular.of_append {ttl maxEntries : Nat} {calls later : List TimedCall}
    (h : Regular ttl maxEntries (calls ++ later)) : Regular ttl maxEntries calls where
  ordered := h.ordered.sublist (List.sublist_append_left _ _)
  distinct := by
    have hdistinct := h.distinct
    rw [insertions_append] at hdistinct
    exact hdistinct.sublist (List.sublist_append_left _ _)

section Regular

variable {ttl maxEntries : Nat} {calls : List TimedCall} {now : Instant} {call : GuardCall}

/-- Regular calls come before the last one. -/
theorem Regular.le_last (h : Regular ttl maxEntries (calls ++ [(now, call)])) :
    ∀ earlier ∈ calls, earlier.1 ≤ now := fun earlier hearlier =>
  (List.pairwise_append.mp h.ordered).2.2 earlier hearlier _ List.mem_cons_self

/-- The mark that the last of regular calls sets was not set before. -/
theorem Regular.last_new (h : Regular ttl maxEntries (calls ++ [(now, call)])) :
    ((new ttl maxEntries).insertions calls ++
      (((new ttl maxEntries).after calls).inserted? now call).toList).Nodup := by
  have hdistinct := h.distinct
  rw [insertions_append] at hdistinct
  simpa [insertions] using hdistinct

/-- After regular calls the guard is timely at every instant that is not before them. -/
theorem Regular.timely (h : Regular ttl maxEntries calls) (hpast : ∀ call ∈ calls, call.1 ≤ now) :
    ((new ttl maxEntries).after calls).Timely now := by
  induction calls using List.reverseRecOn generalizing now with
  | nil => exact .of_new ttl maxEntries now
  | append_singleton calls last ih =>
    have hbefore := ih h.of_append h.le_last
    rw [after_append]
    exact (hbefore.step (perform_effect last.2 last.1 _)).mono (hpast last (by simp))

end Regular

/-! ## Two guards with the same fresh entries -/

/-- From an instant on, two guards have the same fresh entries; their limits are the same. -/
structure Alike (now : Instant) (g h : Guard) : Prop where
  ttl : g.ttl = h.ttl
  capacity : g.capacity = h.capacity
  fresh : ∀ later, now ≤ later → g.fresh later = h.fresh later

namespace Alike

variable {now later : Instant} {g h : Guard}

/-- Likeness is mutual. -/
theorem symm (halike : Alike now g h) : Alike now h g :=
  ⟨halike.ttl.symm, halike.capacity.symm, fun later hle => (halike.fresh later hle).symm⟩

/-- Time may pass. -/
theorem mono (halike : Alike now g h) (hle : now ≤ later) : Alike later g h :=
  ⟨halike.ttl, halike.capacity, fun last hlast => halike.fresh last (Nat.le_trans hle hlast)⟩

/-- Guards that are alike have the same live ids. -/
theorem isLive (halike : Alike now g h) (hg : OneEach g.entries) (hh : OneEach h.entries)
    (id : String) : g.isLive now id = h.isLive now id := by
  rw [Bool.eq_iff_iff, isLive_iff_fresh hg, isLive_iff_fresh hh,
    halike.fresh now (Nat.le_refl now)]

/-- Cleaning up one of two guards leaves them alike. -/
theorem clean (halike : Alike now g h) (hone : OneEach g.entries) {past : Instant}
    (hle : past ≤ now) {call : GuardCall} (hclean : g.CleansUp past call) :
    Alike now (call.perform past g).2 h := by
  cases call with
  | sweep =>
    refine ⟨halike.ttl, halike.capacity, fun later hlater => ?_⟩
    exact (fresh_sweep g (Nat.le_trans hle hlater)).trans (halike.fresh later hlater)
  | seen id =>
    have hlive : ¬ g.isLive past id = true := by
      intro hlive
      simp [CleansUp, seen, hlive] at hclean
    have hperform : (GuardCall.perform (.seen id) past g).2 = g.forget id := by
      simp [GuardCall.perform, seen, hlive, forget]
    rw [hperform]
    refine ⟨halike.ttl, halike.capacity, fun later hlater => ?_⟩
    exact (fresh_dropEntry_of_not_live hone (Nat.le_trans hle hlater) hlive).trans
      (halike.fresh later hlater)
  | mark => exact hclean.elim
  | tryMark => exact hclean.elim
  | forget => exact hclean.elim
  | size => exact hclean.elim

/-- Forgetting an id on both of two guards leaves them alike. -/
theorem forget (halike : Alike now g h) (id : String) : Alike now (g.forget id) (h.forget id) := by
  refine ⟨halike.ttl, halike.capacity, fun later hlater => ?_⟩
  rw [fresh_forget, fresh_forget, halike.fresh later hlater]

/-- Marking an id on both of two guards leaves them alike: the same fresh entries are evicted. -/
theorem mark (halike : Alike now g h) {marks marks' : List Mark} (hg : g.Orderly marks)
    (hh : h.Orderly marks') (htimely : g.Timely now) (htimely' : h.Timely now) {id : String}
    (hnew : (id, now) ∉ marks) (hnew' : (id, now) ∉ marks') :
    Alike now (g.mark now id) (h.mark now id) := by
  refine ⟨halike.ttl, halike.capacity, fun later hlater => ?_⟩
  have hfresh : g.isFresh later = h.isFresh later := by
    funext marked
    simp [isFresh, halike.ttl]
  rw [fresh_mark hg htimely hnew, fresh_mark hh htimely' hnew', freshWith_eq, freshWith_eq,
    halike.fresh later hlater, halike.capacity, hfresh]

/-- The same call on two guards that are alike leaves them alike. -/
theorem perform (halike : Alike now g h) {marks marks' : List Mark} (hg : g.Orderly marks)
    (hh : h.Orderly marks') (htimely : g.Timely now) (htimely' : h.Timely now) (call : GuardCall)
    (hnew : (marks ++ (g.inserted? now call).toList).Nodup)
    (hnew' : (marks' ++ (h.inserted? now call).toList).Nodup) :
    Alike now (call.perform now g).2 (call.perform now h).2 := by
  have hlive := halike.isLive hg.oneEach hh.oneEach
  have hmark : ∀ id, g.inserted? now call = some (id, now) →
      h.inserted? now call = some (id, now) → Alike now (g.mark now id) (h.mark now id) := by
    intro id hinserted hinserted'
    exact halike.mark hg hh htimely htimely' (not_mem_of_inserted hnew hinserted)
      (not_mem_of_inserted hnew' hinserted')
  cases call with
  | seen id =>
    simp only [GuardCall.perform, seen, hlive id]
    split
    · exact halike
    · exact halike.forget id
  | mark id => exact hmark id rfl rfl
  | tryMark id =>
    have hlive' := hlive id
    cases hg' : g.isLive now id with
    | true =>
      rw [hg'] at hlive'
      simpa [GuardCall.perform, tryMark, hg', ← hlive'] using halike
    | false =>
      rw [hg'] at hlive'
      simpa [GuardCall.perform, tryMark, hg', ← hlive'] using
        hmark id (by simp [inserted?, tryMark, hg']) (by simp [inserted?, tryMark, ← hlive'])
  | forget id => exact halike.forget id
  | sweep =>
    have hclean : g.CleansUp now .sweep := trivial
    have hclean' : h.CleansUp now .sweep := trivial
    have hsweep := halike.clean hg.oneEach (Nat.le_refl now) hclean
    exact (hsweep.symm.clean hh.oneEach (Nat.le_refl now) hclean').symm
  | size => exact halike

/-- Two guards that are alike answer the same question alike. -/
theorem answer (halike : Alike now g h) (hg : OneEach g.entries) (hh : OneEach h.entries)
    {call : GuardCall} (htells : TellsLive call) :
    (call.perform now g).1 = (call.perform now h).1 := by
  have hlive := halike.isLive hg hh
  cases call with
  | seen id =>
    simp only [GuardCall.perform, seen, hlive id]
    split <;> rfl
  | tryMark id =>
    simp only [GuardCall.perform, tryMark, hlive id]
    split <;> rfl
  | mark => exact htells.elim
  | forget => exact htells.elim
  | sweep => exact htells.elim
  | size => exact htells.elim

end Alike

/-! ## Two rows of calls -/

/-- A call in two rows of calls: it is in both of them, or in the first or the second only. -/
inductive Paired
  | both (call : TimedCall)
  | first (call : TimedCall)
  | second (call : TimedCall)

namespace Paired

/-- The call in the first row. -/
def first? : Paired → Option TimedCall
  | both call => some call
  | first call => some call
  | second _ => none

/-- The call in the second row. -/
def second? : Paired → Option TimedCall
  | both call => some call
  | first _ => none
  | second call => some call

end Paired

/-- The first of two rows of calls. -/
def firsts (pairs : List Paired) : List TimedCall := pairs.filterMap Paired.first?

/-- The second of two rows of calls. -/
def seconds (pairs : List Paired) : List TimedCall := pairs.filterMap Paired.second?

/-- One more call for the first row. -/
theorem firsts_snoc (pairs : List Paired) (last : Paired) :
    firsts (pairs ++ [last]) = firsts pairs ++ last.first?.toList := by
  cases last <;> simp [firsts, Paired.first?]

/-- One more call for the second row. -/
theorem seconds_snoc (pairs : List Paired) (last : Paired) :
    seconds (pairs ++ [last]) = seconds pairs ++ last.second?.toList := by
  cases last <;> simp [seconds, Paired.second?]

/-- Two rows of calls, made to two guards, differ only in calls that clean up. -/
def DifferInCleaning (g h : Guard) : List Paired → Prop
  | [] => True
  | .both (now, call) :: rest =>
    DifferInCleaning (call.perform now g).2 (call.perform now h).2 rest
  | .first (now, call) :: rest =>
    g.CleansUp now call ∧ DifferInCleaning (call.perform now g).2 h rest
  | .second (now, call) :: rest =>
    h.CleansUp now call ∧ DifferInCleaning g (call.perform now h).2 rest

/-- Rows of calls differ only in cleaning up if they do so up to some call and from there on. -/
theorem differInCleaning_append (g h : Guard) (pairs later : List Paired) :
    DifferInCleaning g h (pairs ++ later) ↔
      DifferInCleaning g h pairs ∧
        DifferInCleaning (g.after (firsts pairs)) (h.after (seconds pairs)) later := by
  induction pairs generalizing g h with
  | nil => simp [DifferInCleaning, firsts, seconds, after]
  | cons pair rest ih =>
    cases pair with
    | both call => exact ih _ _
    | first call => exact (and_congr_right fun _ => ih _ _).trans and_assoc.symm
    | second call => exact (and_congr_right fun _ => ih _ _).trans and_assoc.symm

/-- Two regular rows of calls that differ only in cleaning up leave guards that are alike. -/
theorem alike_after {ttl maxEntries : Nat} {pairs : List Paired} {now : Instant}
    (hclean : DifferInCleaning (new ttl maxEntries) (new ttl maxEntries) pairs)
    (hfirst : Regular ttl maxEntries (firsts pairs))
    (hsecond : Regular ttl maxEntries (seconds pairs))
    (hpast : ∀ call ∈ firsts pairs, call.1 ≤ now)
    (hpast' : ∀ call ∈ seconds pairs, call.1 ≤ now) :
    Alike now ((new ttl maxEntries).after (firsts pairs))
      ((new ttl maxEntries).after (seconds pairs)) := by
  induction pairs using List.reverseRecOn generalizing now with
  | nil => exact ⟨rfl, rfl, fun _ _ => rfl⟩
  | append_singleton pairs last ih =>
    rw [firsts_snoc] at hfirst hpast ⊢
    rw [seconds_snoc] at hsecond hpast' ⊢
    have hg := orderly_after hfirst.of_append.distinct
    have hh := orderly_after hsecond.of_append.distinct
    have hbefore : ∀ call ∈ firsts pairs, call.1 ≤ now := fun call hcall =>
      hpast call (List.mem_append_left _ hcall)
    have hbefore' : ∀ call ∈ seconds pairs, call.1 ≤ now := fun call hcall =>
      hpast' call (List.mem_append_left _ hcall)
    obtain ⟨hearlier, hlast⟩ := (differInCleaning_append ..).mp hclean
    rw [after_append, after_append]
    cases last with
    | first call =>
      have halike := ih hearlier hfirst.of_append hsecond.of_append hbefore hbefore'
      exact halike.clean hg.oneEach (hpast call (by simp [Paired.first?])) hlast.1
    | second call =>
      have halike := ih hearlier hfirst.of_append hsecond.of_append hbefore hbefore'
      exact (halike.symm.clean hh.oneEach (hpast' call (by simp [Paired.second?])) hlast.1).symm
    | both call =>
      have halike := ih hearlier hfirst.of_append hsecond.of_append hfirst.le_last
        hsecond.le_last
      exact (halike.perform hg hh (hfirst.of_append.timely hfirst.le_last)
        (hsecond.of_append.timely hsecond.le_last) call.2 hfirst.last_new hsecond.last_new).mono
          (hpast call (by simp [Paired.first?]))

/-- Two rows of calls get the same answers to the questions that they have in common. -/
def AgreeOnLive (ttl maxEntries : Nat) (pairs : List Paired) : Prop :=
  ∀ before now call after, pairs = before ++ .both (now, call) :: after → TellsLive call →
    (call.perform now ((new ttl maxEntries).after (firsts before))).1 =
      (call.perform now ((new ttl maxEntries).after (seconds before))).1

/-- Among calls in a row, none that marks an id drops the fresh entry of another, unless there are
more fresh entries with the new one than the guard may hold. -/
def EvictsExpiredFirst (ttl maxEntries : Nat) (calls : List TimedCall) : Prop :=
  ∀ before now call after id, calls = before ++ (now, call) :: after →
    ((new ttl maxEntries).after before).inserted? now call = some (id, now) →
    ∀ entry ∈ ((new ttl maxEntries).after before).fresh now, entry.1 ≠ id →
      entry ∉ (call.perform now ((new ttl maxEntries).after before)).2.entries →
      max 1 maxEntries < (((new ttl maxEntries).after before).freshWith now id now).length

/-- Over regular calls, expired entries are evicted first. -/
theorem Regular.evictsExpiredFirst {ttl maxEntries : Nat} {calls : List TimedCall}
    (h : Regular ttl maxEntries calls) : EvictsExpiredFirst ttl maxEntries calls := by
  rintro before now call after id rfl hinserted entry hentry hother hgone
  have hlast : Regular ttl maxEntries (before ++ [(now, call)]) :=
    Regular.of_append (by simpa using h)
  have horderly := orderly_after hlast.of_append.distinct
  have htimely := hlast.of_append.timely hlast.le_last
  have hnew := not_mem_of_inserted hlast.last_new hinserted
  rw [perform_of_inserted hinserted] at hgone
  have hmany := lt_length_freshWith horderly htimely hnew hentry hother hgone
  rwa [(after_limits ..).2] at hmany

/-- Cleaning up cannot be noticed. Two rows of calls over a clock that never goes back, neither of
which marks an id twice at one instant, get the same answers to the questions and the attempts to
mark that they have in common, if they differ only in sweeps and in questions answered with no.
In either row a fresh entry is evicted only when there are more fresh ones than may be held. -/
theorem cleaning_unnoticed {ttl maxEntries : Nat} {pairs : List Paired}
    (hclean : DifferInCleaning (new ttl maxEntries) (new ttl maxEntries) pairs)
    (hfirst : Regular ttl maxEntries (firsts pairs))
    (hsecond : Regular ttl maxEntries (seconds pairs)) :
    AgreeOnLive ttl maxEntries pairs ∧ EvictsExpiredFirst ttl maxEntries (firsts pairs) ∧
      EvictsExpiredFirst ttl maxEntries (seconds pairs) := by
  refine ⟨?_, hfirst.evictsExpiredFirst, hsecond.evictsExpiredFirst⟩
  rintro before now call after rfl htells
  rw [List.append_cons] at hfirst hsecond
  have hclean := ((differInCleaning_append ..).mp hclean).1
  rw [firsts, List.filterMap_append, ← firsts, ← firsts, firsts_snoc] at hfirst
  rw [seconds, List.filterMap_append, ← seconds, ← seconds, seconds_snoc] at hsecond
  have hfirst := hfirst.of_append
  have hsecond := hsecond.of_append
  have halike := alike_after hclean hfirst.of_append hsecond.of_append hfirst.le_last
    hsecond.le_last
  exact halike.answer (orderly_after hfirst.of_append.distinct).oneEach
    (orderly_after hsecond.of_append.distinct).oneEach htells

/-- A guard for two ids, swept in one row and not in the other: there the expired entry gives way
to a new mark, here it is gone before. -/
theorem cleaning_unnoticed_of_swept :
    let pairs : List Paired :=
      [.both (0, .mark "a"), .both (5, .mark "b"), .first (11, .sweep), .second (12, .seen "c"),
        .both (12, .tryMark "c"), .first (13, .seen "a"), .both (14, .seen "b"),
        .both (14, .tryMark "a")]
    DifferInCleaning (new 10 2) (new 10 2) pairs ∧ Regular 10 2 (firsts pairs) ∧
      Regular 10 2 (seconds pairs) ∧ AgreeOnLive 10 2 pairs ∧
      EvictsExpiredFirst 10 2 (firsts pairs) ∧ EvictsExpiredFirst 10 2 (seconds pairs) := by
  intro pairs
  have hclean : DifferInCleaning (new 10 2) (new 10 2) pairs := by
    simp only [pairs, DifferInCleaning]
    exact ⟨trivial, rfl, rfl, trivial⟩
  have hfirst : Regular 10 2 (firsts pairs) := ⟨by decide, by decide⟩
  have hsecond : Regular 10 2 (seconds pairs) := ⟨by decide, by decide⟩
  exact ⟨hclean, hfirst, hsecond, cleaning_unnoticed hclean hfirst hsecond⟩

end MarketFeed.Guard
