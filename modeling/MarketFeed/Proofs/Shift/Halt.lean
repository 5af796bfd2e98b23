import MarketFeed.Proofs.Shift.Books

/-!
# What workers take after the signal

A worker looks whether the service is to stop, and then takes a message if there is one. When the
signal comes after it has looked, it does not know of it until it has taken that message and
finished it. So after the signal each worker takes one more message at most, and only if it had
looked before and taken nothing since.
-/

namespace MarketFeed

/-- A message that was taken for a partition was taken under one of its tickets. -/
theorem mem_takenFor {p : Partition} {deeds : List Deed} {number : Nat} {m : InputMessage} :
    (number, m) ∈ takenFor p deeds ↔ .taken ⟨p, number⟩ m ∈ deeds := by
  unfold takenFor
  rw [List.mem_filterMap]
  constructor
  · rintro ⟨deed, hmem, htaken⟩
    cases deed with
    | taken k m' =>
      obtain ⟨rfl, hsame⟩ := Option.ite_none_right_eq_some.mp htaken
      cases hsame
      exact hmem
    | _ => cases htaken
  · exact fun hmem => ⟨_, hmem, if_pos rfl⟩

/-- The worker of a partition has found that the service is not to stop, and has taken nothing
since. -/
def Looking (p : Partition) (deeds : List Deed) : Prop :=
  ∃ early late, deeds = early ++ .looked p :: late ∧ takenFor p late = []

/-- A worker that does not take a message keeps looking. -/
theorem Looking.snoc {p : Partition} {deeds : List Deed} {deed : Deed} (h : Looking p deeds)
    (hother : deed.taken? p = none) : Looking p (deeds ++ [deed]) := by
  obtain ⟨early, late, rfl, hnone⟩ := h
  exact ⟨early, late ++ [deed], by simp, by simp [takenFor_snoc, hnone, hother]⟩

/-- After these deeds the worker of a partition takes no message, or just the one after those it has
finished, for which it had looked. -/
def Halting (p : Partition) (before after : List Deed) : Prop :=
  takenFor p after = [] ∨
    Looking p before ∧ ∃ m, takenFor p after = [((storedFor p before).length, m)]

namespace Shift

variable {setting : Setting} {first shift shift' : Shift} {before after deeds : List Deed}
  {deed : Deed} {p : Partition}

/-! ## One step -/

/-- If the service is to stop, it is to stop from then on. -/
theorem Step.stopping (hstep : Step setting shift deed shift')
    (h : shift.stopping = true ∨ deed = .signalled) : shift'.stopping = true := by
  cases hstep <;> simp_all

/-- A worker that has looked has done so just now, or had looked before and takes nothing. -/
theorem Step.looked (hstep : Step setting shift deed shift') (h : shift'.looked p = true) :
    (deed = .looked p ∧ shift.stopping = false ∧ (shift.crew.worker p).begun = none) ∨
      (shift.looked p = true ∧ deed.taken? p = none) := by
  cases hstep with
  | @look q w hgo hworker hpresent hfree =>
    by_cases hp : p = q
    · subst hp
      exact .inl ⟨rfl, hgo, by rw [Crew.worker_eq hworker, hfree]⟩
    · exact .inr ⟨by simpa [hp] using h, rfl⟩
  | @take q =>
    by_cases hp : p = q
    · subst hp
      simp at h
    · exact .inr ⟨by simpa [hp] using h, by simp [Deed.taken?, ticket, Ne.symm hp]⟩
  | _ => exact .inr ⟨h, rfl⟩

/-- A worker without a message begins none but by taking it, and finishes none. -/
theorem Step.free (hstep : Step setting shift deed shift')
    (h : (shift.crew.worker p).begun = none) (hother : deed.taken? p = none) :
    (shift'.crew.worker p).begun = none ∧ shift'.finished p = shift.finished p := by
  have hset {q : Partition} {w w' : Worker} (hworker : shift.crew.worker? q = some w)
      (hkept : p = q → w'.begun = none) : ((shift.crew.set q w').worker p).begun = none := by
    rw [Crew.worker_set hworker]
    by_cases hp : p = q
    · rw [hp, Function.update_self, hkept hp]
    · rwa [Function.update_of_ne hp]
  cases hstep with
  | call m => exact ⟨by simpa using h, rfl⟩
  | @handOver m handover crew hcalling hhandOver =>
    rcases Crew.handOver_cases hhandOver with ⟨-, w, hw, -, rfl⟩ | ⟨-, rfl, -⟩ | ⟨-, rfl⟩
    · refine ⟨hset hw fun hp => ?_, rfl⟩
      rwa [hp, Crew.worker_eq hw] at h
    · exact ⟨h, rfl⟩
    · exact ⟨h, rfl⟩
  | @take q w m rest _ hworker =>
    refine ⟨hset hworker ?_, rfl⟩
    rintro rfl
    simp [Deed.taken?, ticket] at hother
  | @store q w m outcome done hworker hbegun =>
    refine ⟨hset hworker fun _ => rfl, Function.update_of_ne ?_ _ _⟩
    rintro rfl
    rw [Crew.worker_eq hworker, hbegun] at h
    cases h
  | stop _ hworker => exact ⟨hset hworker fun _ => rfl, rfl⟩
  | drain _ _ hworker => exact ⟨hset hworker fun _ => rfl, rfl⟩
  | _ => exact ⟨h, rfl⟩

/-! ## A whole run -/

/-- A worker that has looked is at no message, and has taken none since. -/
def Poised (shift : Shift) (deeds : List Deed) : Prop :=
  ∀ p, shift.looked p = true → (shift.crew.worker p).begun = none ∧ Looking p deeds

/-- Every step keeps the workers poised. -/
theorem Poised.step (h : shift.Poised deeds) (hstep : Step setting shift deed shift') :
    shift'.Poised (deeds ++ [deed]) := by
  intro p hlooked
  rcases hstep.looked hlooked with ⟨rfl, -, hfree⟩ | ⟨hbefore, hother⟩
  · exact ⟨(hstep.free hfree rfl).1, deeds, [], rfl, rfl⟩
  · obtain ⟨hfree, hlooking⟩ := h p hbefore
    exact ⟨(hstep.free hfree hother).1, hlooking.snoc hother⟩

section Run

variable {ttl maxEntries queueSize : Nat} {s : Shared}

/-- In every run, the workers that have looked are poised. -/
theorem Run.poised (hrun : Run setting (.start ttl maxEntries queueSize s) deeds shift) :
    shift.Poised deeds := by
  induction hrun with
  | nil => exact fun p h => absurd h (by simp [start])
  | snoc _ hstep ih => exact ih.step hstep

/-- After the signal the service is to stop. -/
theorem Run.stopping (hrun : Run setting (.start ttl maxEntries queueSize s) deeds shift)
    (hsignal : .signalled ∈ deeds) : shift.stopping = true := by
  induction hrun with
  | nil => cases hsignal
  | snoc _ hstep ih =>
    rcases List.mem_append.mp hsignal with hold | hnew
    · exact hstep.stopping (.inl (ih hold))
    · exact hstep.stopping (.inr (List.mem_singleton.mp hnew).symm)

/-- What a worker takes after some deeds with which the service is to stop. As long as it counts as
having looked, it has taken and finished nothing since. -/
structure Ceasing (p : Partition) (before after : List Deed) (shift : Shift) : Prop where
  halting : Halting p before after
  ready : shift.looked p = true → takenFor p after = [] ∧ Looking p before ∧
    (shift.crew.worker p).begun = none ∧ shift.finished p = (storedFor p before).length

/-- Every step keeps a worker to one more message, once the service is to stop. -/
theorem Ceasing.step (h : Ceasing p before after shift) (hstop : shift.stopping = true)
    (hstep : Step setting shift deed shift') : Ceasing p before (after ++ [deed]) shift' where
  halting := by
    unfold Halting
    rw [takenFor_snoc]
    cases htaken : deed.taken? p with
    | none =>
      rw [Option.toList_none, List.append_nil]
      exact h.halting
    | some taken =>
      cases hstep with
      | @take q w m rest hlooked =>
        obtain ⟨hsame, hnumbered⟩ := Option.ite_none_right_eq_some.mp htaken
        obtain rfl : q = p := hsame
        obtain ⟨hnone, hlooking, -, hfinished⟩ := h.ready hlooked
        refine .inr ⟨hlooking, m, ?_⟩
        rw [hnone, ← hnumbered, ← hfinished]
        rfl
      | _ => cases htaken
  ready := by
    intro hlooked
    rcases hstep.looked hlooked with ⟨-, hgo, -⟩ | ⟨hbefore, hother⟩
    · simp [hstop] at hgo
    · obtain ⟨hnone, hlooking, hfree, hfinished⟩ := h.ready hbefore
      obtain ⟨hfree', hsame⟩ := hstep.free hfree hother
      exact ⟨by simp [takenFor_snoc, hnone, hother], hlooking, hfree', hsame.trans hfinished⟩

/-- After the signal each worker takes one more message at most, for which it had looked before. -/
theorem Run.halting
    (hrun : Run setting (.start ttl maxEntries queueSize s) (before ++ .signalled :: after) shift)
    (p : Partition) : Halting p before after := by
  suffices hceasing : Ceasing p before after shift from hceasing.halting
  induction after using List.reverseRecOn generalizing shift with
  | nil =>
    obtain ⟨mid, hbefore, hstep⟩ := hrun.of_snoc
    refine ⟨.inl rfl, fun hlooked => ?_⟩
    have hmid : mid.looked p = true := by
      cases hstep
      exact hlooked
    obtain ⟨hfree, hlooking⟩ := hbefore.poised p hmid
    obtain ⟨hfree', hsame⟩ := hstep.free hfree rfl
    exact ⟨rfl, hlooking, hfree', hsame.trans (hbefore.length_storedFor p).symm⟩
  | append_singleton after deed ih =>
    rw [← List.cons_append, ← List.append_assoc] at hrun
    obtain ⟨mid, hbefore, hstep⟩ := hrun.of_snoc
    exact (ih hbefore).step (hbefore.stopping (by simp)) hstep

end Run

end Shift

end MarketFeed
