import MarketFeed.Proofs.Shift.Step

/-!
# The message a worker is at

A worker is at one message at a time. As long as it has not begun one, no delivery goes under
its next ticket; hence a message that is taken is new to the traffic, and a crew at work makes
a run of the traffic of its deliveries.
-/

namespace MarketFeed.Shift

variable {setting : Setting} {shift shift' : Shift} {deeds : List Deed} {deed : Deed}

/-- The deliveries of a partition, by number, when its worker has finished so many messages:
none is ahead of the worker, and that of the message it has begun is of this message. -/
structure Seated (w : Worker) (finished : Nat) (passages : Nat → Option Passage) : Prop where
  ahead : ∀ number, finished < number → passages number = none
  free : w.begun = none → w.ended = false → passages finished = none
  begun : ∀ m, w.begun = some m → (passages finished).map Passage.intake = some m.intake

/-- Only the queue of the worker has changed. -/
theorem Seated.of_queue {w : Worker} {finished : Nat} {passages : Nat → Option Passage}
    (h : Seated w finished passages) (queue : List InputMessage) :
    Seated { w with queue := queue } finished passages :=
  ⟨h.ahead, h.free, h.begun⟩

/-- The worker has ended. -/
theorem Seated.gone {w : Worker} {finished : Nat} {passages : Nat → Option Passage}
    (h : Seated w finished passages) : Seated .gone finished passages :=
  ⟨h.ahead, nofun, nofun⟩

/-- In each partition, the deliveries are those of the messages its worker has finished or
begun. -/
def Desk (shift : Shift) : Prop :=
  ∀ p, Seated (shift.crew.worker p) (shift.finished p) fun number =>
    shift.traffic.passages ⟨p, number⟩

/-- When a worker ends, the deliveries are still those of the messages finished or begun. -/
theorem Desk.ended (h : shift.Desk) {p : Partition} {w : Worker}
    (hworker : shift.crew.worker? p = some w) :
    Desk { shift with crew := shift.crew.set p .gone } := by
  intro q
  dsimp only
  rw [Crew.worker_set hworker]
  by_cases hq : q = p
  · subst hq
    simpa using (h q).gone
  · simpa [hq] using h q

/-- Every step leaves the deliveries to the messages that were finished or begun. -/
theorem Desk.step (h : shift.Desk) (hstep : Step setting shift deed shift') : shift'.Desk := by
  intro q
  cases hstep with
  | call m => simpa using h q
  | @handOver m handover crew hcalling hhandOver hdone =>
    rcases Crew.handOver_cases hhandOver with ⟨-, w, hw, -, rfl⟩ | ⟨-, rfl, -⟩ | ⟨rfl, -⟩
    · dsimp only
      rw [Crew.worker_set hw]
      by_cases hq : q = m.partition
      · subst hq
        simpa [Crew.worker_eq hw] using (h m.partition).of_queue (w.queue ++ [m])
      · simpa [hq] using h q
    · exact h q
    · exact absurd rfl hdone
  | abandon => exact h q
  | look => exact h q
  | signal => exact h q
  | dismiss => exact h q
  | ambient => exact h q
  | @take p w m rest hlooked hworker hpresent hfree hqueue =>
    dsimp only
    rw [Crew.worker_set hworker]
    by_cases hq : q = p
    · subst hq
      refine ⟨fun number hlt => ?_, fun hbegun => by simp at hbegun, fun m' hbegun => ?_⟩
      · simpa [Traffic.put, ticket, Nat.ne_of_gt hlt] using (h q).ahead number hlt
      · obtain rfl : m = m' := by simpa using hbegun
        simp [Traffic.put, ticket]
    · simpa [hq, Traffic.put, ticket] using h q
  | @work p w m intake progress progress' move s hworker hbegun hpassage hadvance =>
    by_cases hq : q = p
    · subst hq
      refine ⟨fun number hlt => ?_, fun hfree _ => ?_, fun m' hbegun' => ?_⟩
      · simpa [Traffic.put, ticket, Nat.ne_of_gt hlt] using (h q).ahead number hlt
      · simp [Crew.worker_eq hworker, hbegun] at hfree
      · have hintake := (h q).begun m' hbegun'
        simp only [ticket] at hpassage
        simpa [Traffic.put, ticket, hpassage] using hintake
    · simpa [hq, Traffic.put, ticket] using h q
  | @store p w m outcome done hworker hbegun hfinished =>
    dsimp only
    rw [Crew.worker_set hworker]
    by_cases hq : q = p
    · subst hq
      refine ⟨fun number hlt => ?_, fun _ _ => ?_, fun m' hbegun' => by simp at hbegun'⟩
      · rw [Function.update_self] at hlt
        exact (h q).ahead number (Nat.lt_of_succ_lt hlt)
      · rw [Function.update_self]
        exact (h q).ahead _ (Nat.lt_succ_self _)
    · simpa [hq] using h q
  | stop _ hworker => exact h.ended hworker q
  | drain _ _ hworker => exact h.ended hworker q

/-- A step of a crew at work is a step of the traffic of its deliveries, or it leaves the traffic
alone. -/
theorem Step.traffic (h : shift.Desk) (hstep : Step setting shift deed shift') :
    match deed.move? with
    | some move => Traffic.Step setting shift.traffic move shift'.traffic
    | none => shift'.traffic = shift.traffic := by
  cases hstep with
  | @take p w m rest hlooked hworker hpresent hfree hqueue =>
    refine .enter _ ((h p).free ?_ ?_) <;> simp [Crew.worker_eq hworker, hfree, hpresent]
  | work hworker hbegun hpassage hadvance => exact .advance hpassage hadvance
  | store done =>
    refine .ambient ?_
    cases done with
    | true => exact .measure id
    | false => exact .measure _
  | ambient hambient => exact .ambient hambient
  | _ => rfl

section Run

variable {ttl maxEntries queueSize : Nat} {s : Shared}

/-- In every run, the deliveries are those of the messages that were finished or begun. -/
theorem Run.desk (hrun : Run setting (.start ttl maxEntries queueSize s) deeds shift) :
    shift.Desk := by
  induction hrun with
  | nil => exact fun p => ⟨fun _ _ => rfl, fun _ _ => rfl, nofun⟩
  | snoc _ hstep ih => exact ih.step hstep

/-- A run of a crew at work is a run of the traffic of its deliveries. -/
theorem Run.traffic (hrun : Run setting (.start ttl maxEntries queueSize s) deeds shift) :
    Traffic.Run setting (.start ttl maxEntries s) (moves deeds) shift.traffic := by
  induction hrun with
  | nil => exact .nil
  | @snoc deeds shift shift' deed hrun hstep ih =>
    have htraffic := hstep.traffic hrun.desk
    rw [moves_snoc]
    cases hmove : deed.move? with
    | none =>
      rw [hmove] at htraffic
      simpa [htraffic] using ih
    | some move =>
      rw [hmove] at htraffic
      exact ih.snoc htraffic

end Run

end MarketFeed.Shift
