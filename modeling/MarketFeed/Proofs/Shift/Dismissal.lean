import MarketFeed.Proofs.Shift.Order

/-!
# What is done after a crew was dismissed

When a crew is dismissed no more messages come. If the service is to stop as well, each worker
finishes one message at most, the one it was at or one for which it had looked before the signal,
and the queues are else left as they are. If it is not, the
dismissal alone holds nobody back: the workers go on through their queues, and each ends only
when it has finished every message that was handed over for its partition.
-/

namespace MarketFeed.Shift

variable {setting : Setting} {first shift shift' : Shift} {before after deeds : List Deed}
  {deed : Deed} {p : Partition} {k : Ticket} {m : InputMessage}

/-! ## One step -/

/-- After a dismissal no message is handed over, and the crew stays dismissed. -/
theorem Step.closed (hstep : Step setting shift deed shift')
    (h : shift.crew.dismissed = true ∧ shift.calling = none) :
    (shift'.crew.dismissed = true ∧ shift'.calling = none) ∧ deed.handed? = none := by
  obtain ⟨hdismissed, hcalling⟩ := h
  cases hstep with
  | call m hfree hopen => simp [hdismissed] at hopen
  | handOver hwaits => simp [hcalling] at hwaits
  | abandon hwaits => simp [hcalling] at hwaits
  | _ => exact ⟨⟨by simp_all [Crew.set, Crew.dismiss], by simp_all⟩, rfl⟩

/-- The service is to stop only if that was signalled. -/
theorem Step.signalled_of_stopping (hstep : Step setting shift deed shift')
    (h : shift'.stopping = true) : shift.stopping = true ∨ deed = .signalled := by
  cases hstep <;> simp_all

/-! ## A whole run -/

/-- After a dismissal nothing is handed over. -/
theorem Run.closed (hrun : Run setting first (before ++ .dismissed :: after) shift) :
    (shift.crew.dismissed = true ∧ shift.calling = none) ∧
      after.filterMap Deed.handed? = [] := by
  induction after using List.reverseRecOn generalizing shift with
  | nil =>
    obtain ⟨mid, -, hstep⟩ := hrun.of_snoc
    cases hstep with
    | dismiss hfree => exact ⟨⟨rfl, hfree⟩, rfl⟩
  | append_singleton after deed ih =>
    rw [← List.cons_append, ← List.append_assoc] at hrun
    obtain ⟨mid, hbefore, hstep⟩ := hrun.of_snoc
    obtain ⟨hmid, hnone⟩ := ih hbefore
    obtain ⟨hshift, hhanded⟩ := hstep.closed hmid
    exact ⟨hshift, by simp [hnone, hhanded]⟩

/-- The messages handed over for a partition are those handed over before the dismissal. -/
theorem Run.handedTo_of_dismissed
    (hrun : Run setting first (before ++ .dismissed :: after) shift) (p : Partition) :
    handedTo p (before ++ .dismissed :: after) = handedTo p before := by
  have hnone : (Deed.dismissed :: after).filterMap Deed.handed? = [] := hrun.closed.2
  unfold handedTo
  rw [List.filterMap_append, hnone, List.append_nil]

section Run

variable {ttl maxEntries queueSize : Nat} {s : Shared}

/-- The service is to stop only after the signal. -/
theorem Run.signalled_of_stopping
    (hrun : Run setting (.start ttl maxEntries queueSize s) deeds shift)
    (h : shift.stopping = true) : .signalled ∈ deeds := by
  induction hrun with
  | nil => cases h
  | snoc _ hstep ih =>
    rcases hstep.signalled_of_stopping h with hbefore | rfl
    · exact List.mem_append_left _ (ih hbefore)
    · simp

/-- Whatever a worker does for a message, it takes the message or has taken it before. -/
theorem Run.taken_of_ticket
    (hrun : Run setting (.start ttl maxEntries queueSize s) (before ++ [deed]) shift)
    (hticket : deed.ticket? = some k) : ∃ m, .taken k m ∈ before ++ [deed] := by
  obtain ⟨mid, hbefore, hstep⟩ := hrun.of_snoc
  have hcame (h : ∃ intake, mid.traffic.intake? k = some intake) :
      ∃ m, .taken k m ∈ before ++ [deed] := by
    obtain ⟨intake, hintake⟩ := h
    obtain ⟨m, htaken, -⟩ :=
      hbefore.taken_of_entered ((hbefore.traffic.entered_iff _ _).mpr hintake)
    exact ⟨m, List.mem_append_left _ htaken⟩
  cases hstep with
  | @take p w m =>
    cases hticket
    exact ⟨m, by simp⟩
  | @work p w m intake progress progress' move s hworker hbegun hpassage hadvance =>
    obtain rfl := Option.some.inj (hadvance.subject.symm.trans hticket)
    exact hcame ⟨intake, by simp [Traffic.intake?, hpassage]⟩
  | @store p w m outcome done hworker hbegun hfinished =>
    cases hticket
    obtain ⟨passage, hpassage, -⟩ := Option.bind_eq_some_iff.mp hfinished
    exact hcame ⟨passage.intake, by simp [Traffic.intake?, hpassage]⟩
  | _ => cases hticket

/-- No run undoes a finished message. -/
theorem Run.finished_le (hrun : Run setting first deeds shift) (p : Partition) :
    first.finished p ≤ shift.finished p := by
  induction hrun with
  | nil => exact Nat.le_refl _
  | snoc _ hstep ih => exact ih.trans (hstep.finished_le p)

/-- After the signal, whatever is done for a message is done for the first one that is not finished:
its worker was at that message, or takes it as it had looked before. -/
theorem Run.first_of_signalled {early late : List Deed}
    (hrun : Run setting (.start ttl maxEntries queueSize s)
      (early ++ .signalled :: late ++ after) shift)
    (hmem : deed ∈ after) (hticket : deed.ticket? = some k) :
    k.number = (storedFor k.partition (early ++ .signalled :: late)).length ∧
      ((∃ m, .taken k m ∈ early ++ .signalled :: late) ∨ Looking k.partition early) := by
  have hhalting : Halting k.partition early (late ++ after) := by
    rw [List.append_assoc, List.cons_append] at hrun
    exact hrun.halting k.partition
  obtain ⟨mid, hmid⟩ := hrun.of_append
  obtain ⟨soon, rest, rfl⟩ := List.append_of_mem hmem
  have hwhole : early ++ .signalled :: late ++ (soon ++ deed :: rest) =
      (early ++ .signalled :: late ++ soon ++ [deed]) ++ rest := by simp
  rw [hwhole] at hrun
  obtain ⟨next, hnext⟩ := hrun.of_append
  obtain ⟨m, htaken⟩ := hnext.taken_of_ticket hticket
  -- What was finished before stays so, hence the message is none of the finished ones.
  have hle : (storedFor k.partition (early ++ .signalled :: late)).length ≤ k.number := by
    obtain ⟨last, hlast, hstep⟩ := hnext.of_snoc
    rw [hstep.number_eq hticket, ← hlast.length_storedFor]
    exact length_storedFor_append ..
  rw [List.append_assoc] at htaken
  rcases List.mem_append.mp htaken with hbefore | hafter
  · refine ⟨le_antisymm ?_ hle, .inl ⟨m, hbefore⟩⟩
    rw [hmid.length_storedFor]
    exact hmid.paced.reached _ hbefore k rfl
  · have hone : (k.number, m) ∈ takenFor k.partition (late ++ (soon ++ deed :: rest)) := by
      rw [mem_takenFor, List.append_cons, ← List.append_assoc]
      exact List.mem_append_left _ (List.mem_append_right _ hafter)
    rcases hhalting with hnone | ⟨hlooking, m', htakes⟩
    · rw [hnone] at hone
      cases hone
    · rw [htakes, List.mem_singleton, Prod.mk.injEq] at hone
      refine ⟨le_antisymm ?_ hle, .inr hlooking⟩
      rw [hone.1]
      exact length_storedFor_append ..

/-- A worker that ends without the signal has finished every message handed over for its
partition. -/
theorem Run.stored_of_ended
    (hrun : Run setting (.start ttl maxEntries queueSize s) (deeds ++ [.ended p]) shift)
    (hsignal : .signalled ∉ deeds) :
    (storedFor p deeds).map Prod.snd = (handedTo p deeds).map InputMessage.next := by
  obtain ⟨mid, hmid, hstep⟩ := hrun.of_snoc
  obtain ⟨past, left, haccounts⟩ := hmid.books p
  cases hstep with
  | stop hstopping => exact absurd (hmid.signalled_of_stopping hstopping) hsignal
  | drain _ _ hworker hpresent hfree hqueue =>
    rw [Crew.worker_eq hworker] at haccounts
    rw [haccounts.places, haccounts.handed_eq, haccounts.left_eq_nil hpresent]
    simp [Worker.messages, hfree, hqueue]

/-- What is done after a crew was dismissed. -/
structure Dismissed (before after : List Deed) : Prop where
  /-- Only messages that were in the queues are taken. -/
  queued : ∀ k m, .taken k m ∈ after → (handedTo k.partition before)[k.number]? = some m
  /-- If the service is to stop, each worker finishes one message at most: the one it was at, or the
  one it takes as it had looked before the signal. -/
  halted : ∀ early late, before = early ++ .signalled :: late → ∀ deed ∈ after, ∀ k,
    deed.ticket? = some k → k.number = (storedFor k.partition before).length ∧
      ((∃ m, .taken k m ∈ before) ∨ Looking k.partition early)
  /-- From the signal on each worker takes one message at most, for which it had looked before. -/
  stopped : ∀ early late, after = early ++ .signalled :: late →
    ∀ p, Halting p (before ++ .dismissed :: early) late
  /-- A worker that ends without the signal has finished all that was handed over. -/
  drained : ∀ p early late, after = early ++ .ended p :: late → .signalled ∉ before ++ early →
    (storedFor p (before ++ early)).map Prod.snd = (handedTo p before).map InputMessage.next

/-- After a crew was dismissed its workers leave their queues, but for one message at most, if the
service is to stop, and empty them if it is not. -/
theorem Run.dismissed
    (hrun : Run setting (.start ttl maxEntries queueSize s) (before ++ .dismissed :: after) shift) :
    Dismissed before after where
  queued := by
    intro k m hmem
    have hhanded := hrun.handed_of_taken (k := k) (m := m) (by simp [hmem])
    rwa [hrun.handedTo_of_dismissed] at hhanded
  halted := by
    rintro early late rfl deed hmem k hticket
    exact hrun.first_of_signalled (List.mem_cons_of_mem _ hmem) hticket
  stopped := by
    rintro early late rfl p
    rw [← List.cons_append, ← List.append_assoc] at hrun
    exact hrun.halting p
  drained := by
    rintro p early late rfl hsignal
    rw [← List.cons_append, List.append_cons, ← List.append_assoc] at hrun
    obtain ⟨mid, hmid⟩ := hrun.of_append
    have hended : Run setting (.start ttl maxEntries queueSize s)
        ((before ++ .dismissed :: early) ++ [.ended p]) mid := by simpa using hmid
    have hstored := hended.stored_of_ended (by simpa using hsignal)
    obtain ⟨last, hclosed⟩ := hended.of_append
    rw [hclosed.handedTo_of_dismissed] at hstored
    have hsame : storedFor p (before ++ .dismissed :: early) = storedFor p (before ++ early) := by
      simp [storedFor, List.filterMap_cons, Deed.stored?]
    rwa [hsame] at hstored

/-- A worker has begun the first of two messages when the crew is dismissed and the service is to
stop: it finishes that message, and ends before the other. -/
theorem Run.dismissed_of_signalled :
    ∃ (before after : List Deed) (shift : Shift),
      Run ⟨false, fun _ _ => False⟩ (.start 10 2 2 ⟨.new 10 2, 0, 0, 0, [], []⟩)
          (before ++ .dismissed :: after) shift ∧
        .signalled ∈ before ∧ (handedTo ⟨"in", 0⟩ before).length = 2 ∧
        storedFor ⟨"in", 0⟩ after = [(0, ⟨"in", 0, 8⟩)] ∧ .ended ⟨"in", 0⟩ ∈ after ∧
        Dismissed before after := by
  have h : Run ⟨false, fun _ _ => False⟩ (.start 10 2 2 ⟨.new 10 2, 0, 0, 0, [], []⟩) [] _ := .nil
  have h := h.snoc (.call ⟨⟨"in", 0, 7⟩, []⟩ rfl rfl)
  have h := h.snoc (.handOver rfl rfl (by decide))
  have h := h.snoc (.call ⟨⟨"in", 0, 8⟩, []⟩ rfl rfl)
  have h := h.snoc (.handOver rfl rfl (by decide))
  have h := h.snoc (.look (p := ⟨"in", 0⟩) rfl rfl rfl rfl)
  have h := h.snoc (.take (p := ⟨"in", 0⟩) rfl rfl rfl rfl rfl)
  have h := h.snoc (.work (p := ⟨"in", 0⟩) rfl rfl rfl (.settle rfl))
  have h := h.snoc .signal
  have h := h.snoc (.dismiss rfl)
  have h := h.snoc (.work (p := ⟨"in", 0⟩) rfl rfl rfl (.commit rfl))
  have h := h.snoc (.work (p := ⟨"in", 0⟩) rfl rfl rfl .publish)
  have h := h.snoc (.work (p := ⟨"in", 0⟩) rfl rfl rfl .accept)
  have h := h.snoc (.store (p := ⟨"in", 0⟩) true rfl rfl rfl)
  have h := h.snoc (.stop (p := ⟨"in", 0⟩) rfl rfl rfl (.inl rfl))
  have h : Run _ _ ([_, _, _, _, _, _, _, _] ++ .dismissed :: [_, _, _, _, _]) _ := h
  exact ⟨_, _, _, h, by simp, by decide +kernel, by decide +kernel, by simp, h.dismissed⟩

/-- Without the signal the queues are not left alone: a worker has begun the first of two messages
when the crew is dismissed; it finishes that message, then takes the other, which was in its queue,
and finishes that one too. -/
theorem Run.queued_taken_after_dismissal :
    ∃ (before after : List Deed) (shift : Shift) (m : InputMessage),
      Run ⟨false, fun _ _ => False⟩ (.start 10 2 2 ⟨.new 10 2, 0, 0, 0, [], []⟩)
          (before ++ .dismissed :: after) shift ∧
        .signalled ∉ before ++ after ∧ (∀ k, .taken k m ∉ before) ∧
        m ∈ handedTo ⟨"in", 0⟩ before ∧ .taken ⟨⟨"in", 0⟩, 1⟩ m ∈ after ∧
        storedFor ⟨"in", 0⟩ after = [(0, ⟨"in", 0, 8⟩), (1, ⟨"in", 0, 9⟩)] ∧
        ¬ ∀ k m, .taken k m ∉ after := by
  have h : Run ⟨false, fun _ _ => False⟩ (.start 10 2 2 ⟨.new 10 2, 0, 0, 0, [], []⟩) [] _ := .nil
  have h := h.snoc (.call ⟨⟨"in", 0, 7⟩, []⟩ rfl rfl)
  have h := h.snoc (.handOver rfl rfl (by decide))
  have h := h.snoc (.call ⟨⟨"in", 0, 8⟩, []⟩ rfl rfl)
  have h := h.snoc (.handOver rfl rfl (by decide))
  have h := h.snoc (.look (p := ⟨"in", 0⟩) rfl rfl rfl rfl)
  have h := h.snoc (.take (p := ⟨"in", 0⟩) rfl rfl rfl rfl rfl)
  have h := h.snoc (.work (p := ⟨"in", 0⟩) rfl rfl rfl (.settle rfl))
  have h := h.snoc (.dismiss rfl)
  have h := h.snoc (.work (p := ⟨"in", 0⟩) rfl rfl rfl (.commit rfl))
  have h := h.snoc (.work (p := ⟨"in", 0⟩) rfl rfl rfl .publish)
  have h := h.snoc (.work (p := ⟨"in", 0⟩) rfl rfl rfl .accept)
  have h := h.snoc (.store (p := ⟨"in", 0⟩) true rfl rfl rfl)
  have h := h.snoc (.look (p := ⟨"in", 0⟩) rfl rfl rfl rfl)
  have h := h.snoc (.take (p := ⟨"in", 0⟩) rfl rfl rfl rfl rfl)
  have h := h.snoc (.work (p := ⟨"in", 0⟩) rfl rfl rfl (.settle rfl))
  have h := h.snoc (.work (p := ⟨"in", 0⟩) rfl rfl rfl (.commit rfl))
  have h := h.snoc (.work (p := ⟨"in", 0⟩) rfl rfl rfl .publish)
  have h := h.snoc (.work (p := ⟨"in", 0⟩) rfl rfl rfl .accept)
  have h := h.snoc (.store (p := ⟨"in", 0⟩) true rfl rfl rfl)
  refine ⟨[_, _, _, _, _, _, _], [_, _, _, _, _, _, _, _, _, _, _], _, ⟨⟨"in", 0, 8⟩, []⟩, h,
    by simp, by simp, by decide +kernel, ?taken, by decide +kernel,
    fun hnone => hnone ⟨⟨"in", 0⟩, 1⟩ ⟨⟨"in", 0, 8⟩, []⟩ ?taken⟩
  case taken => exact .tail _ (.tail _ (.tail _ (.tail _ (.tail _ (.head _)))))

end Run

end MarketFeed.Shift
