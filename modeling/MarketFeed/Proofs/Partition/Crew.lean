import MarketFeed.Partition.Crew
import Mathlib.Logic.Function.Basic

/-!
# What happens to the workers of a crew

Hiring adds an idle worker for a partition that has none. Handing over a message appends it to
the queue of a worker that has not ended, or changes nothing. Every change touches the worker
of one partition only.
-/

namespace MarketFeed.Crew

/-- Replacing the worker of a partition replaces no other. -/
theorem worker?_set (crew : Crew) (p q : Partition) (w : Worker) :
    (crew.set p w).worker? q =
      if q = p then (crew.worker? p).map fun _ => w else crew.worker? q := by
  unfold worker? set
  rw [List.find?_map]
  have hkeys : ((fun entry : Partition × Worker => decide (entry.1 = q)) ∘
      fun entry => if entry.1 = p then (p, w) else entry) = fun entry => decide (entry.1 = q) := by
    funext entry
    by_cases h : entry.1 = p <;> simp [h]
  rw [hkeys]
  by_cases h : q = p
  · subst h
    rw [if_pos rfl]
    cases hfind : crew.workers.find? fun entry => decide (entry.1 = q) with
    | none => rfl
    | some entry =>
      have hentry : entry.1 = q := by simpa using List.find?_some hfind
      simp [hentry]
  · rw [if_neg h]
    cases hfind : crew.workers.find? fun entry => decide (entry.1 = q) with
    | none => rfl
    | some entry =>
      have hentry : entry.1 = q := by simpa using List.find?_some hfind
      simp [hentry, h]

/-- After hiring for a partition, it has the worker it had, or an idle one. -/
theorem worker?_hire (crew : Crew) (p q : Partition) :
    (crew.hire p).2.worker? q =
      if q = p then some ((crew.worker? p).getD .idle) else crew.worker? q := by
  unfold hire
  split
  · rename_i w hw
    split
    · subst q
      simp [hw]
    · rfl
  · rename_i hnone
    by_cases h : q = p
    · subst q
      have hfind : crew.workers.find? (fun entry => decide (entry.1 = p)) = none := by
        simpa [worker?] using hnone
      simp [worker?, List.find?_append, hfind]
    · simp [worker?, List.find?_append, h, Ne.symm h]

/-- A worker after hiring was there before, or is idle. -/
theorem of_worker?_hire {crew : Crew} {p q : Partition} {w : Worker}
    (h : (crew.hire p).2.worker? q = some w) : crew.worker? q = some w ∨ w = .idle := by
  rw [worker?_hire] at h
  split at h
  · subst q
    cases hbefore : crew.worker? p <;> simp_all
  · exact .inl h

/-- Hiring changes nothing but the workers. -/
theorem hire_limits (crew : Crew) (p : Partition) :
    (crew.hire p).2.capacity = crew.capacity ∧ (crew.hire p).2.dismissed = crew.dismissed := by
  unfold hire
  split <;> exact ⟨rfl, rfl⟩

/-- What becomes of a message depends on the worker of its partition, and on how many messages may
wait for it. -/
theorem handOver_congr {crew crew' : Crew} {m : InputMessage}
    (hworker : crew.worker? m.partition = crew'.worker? m.partition)
    (hcapacity : crew.capacity = crew'.capacity) :
    (crew.handOver m).1 = (crew'.handOver m).1 := by
  unfold handOver
  rw [hworker, hcapacity]
  split
  · rfl
  · split
    · rfl
    · split <;> rfl

/-- What becomes of a message that is handed over: it is the last of the queue of a worker that
has not ended, or the crew is left as it was. -/
theorem handOver_cases {crew crew' : Crew} {m : InputMessage} {handover : Handover}
    (h : crew.handOver m = (handover, crew')) :
    (handover = .queued ∧ ∃ w, crew.worker? m.partition = some w ∧ w.ended = false ∧
        crew' = crew.set m.partition { w with queue := w.queue ++ [m] }) ∨
      (handover = .left ∧ crew' = crew ∧ ∀ w, crew.worker? m.partition = some w → w.ended = true) ∨
      (handover = .waiting ∧ crew' = crew) := by
  unfold handOver at h
  split at h
  · rename_i hnone
    cases h
    exact .inr (.inl ⟨rfl, rfl, fun w hw => by simp [hnone] at hw⟩)
  · rename_i w hw
    split at h
    · rename_i hended
      cases h
      refine .inr (.inl ⟨rfl, rfl, fun w' hw' => ?_⟩)
      obtain rfl := Option.some.inj (hw.symm.trans hw')
      exact hended
    · rename_i hended
      split at h
      · cases h
        exact .inl ⟨rfl, w, hw, by simpa using hended, rfl⟩
      · cases h
        exact .inr (.inr ⟨rfl, rfl⟩)

/-- A crew that a message has to wait for is left as it was. -/
theorem handOver_of_waiting {crew crew' : Crew} {m : InputMessage}
    (h : crew.handOver m = (.waiting, crew')) : crew' = crew := by
  obtain ⟨hqueued, -⟩ | ⟨hleft, -⟩ | ⟨-, hsame⟩ := handOver_cases h
  · cases hqueued
  · cases hleft
  · exact hsame

/-! ## Workers hired and not yet hired -/

/-- The worker of a partition, which is idle as long as it is not hired. -/
def worker (crew : Crew) (p : Partition) : Worker := (crew.worker? p).getD .idle

/-- The worker that was hired for a partition. -/
theorem worker_eq {crew : Crew} {p : Partition} {w : Worker} (h : crew.worker? p = some w) :
    crew.worker p = w := by
  simp [worker, h]

/-- Hiring leaves all workers as they are. -/
@[simp] theorem worker_hire (crew : Crew) (p : Partition) :
    (crew.hire p).2.worker = crew.worker := by
  funext q
  unfold worker
  rw [worker?_hire]
  split
  · subst q
    rfl
  · rfl

/-- Dismissing leaves all workers as they are. -/
@[simp] theorem worker_dismiss (crew : Crew) : crew.dismiss.worker = crew.worker := rfl

/-- Replacing the worker of a partition. -/
theorem worker_set {crew : Crew} {p : Partition} {w : Worker} (h : crew.worker? p = some w)
    (w' : Worker) : (crew.set p w').worker = Function.update crew.worker p w' := by
  funext q
  by_cases hq : q = p
  · subst hq
    simp [worker, worker?_set, h]
  · simp [worker, worker?_set, hq]

end MarketFeed.Crew
