import MarketFeed.Proofs.Shift.Halt

/-!
# The order of the deeds for a partition

A worker finishes its messages one after the other: once it is at a message, nothing is done for
an earlier one, and once the place after a message is stored, nothing is done for that message.
So the places are stored in the order in which the messages were handed over, each after its
message has finished and before the next is begun, and the outputs are published in that order
too. A message that does not finish keeps back all later ones.
-/

namespace MarketFeed

/-- Of two deeds for messages of one partition, the first is not for the later message; if it
stores a place, it is for the earlier one. -/
def Deed.Precedes (deed deed' : Deed) : Prop :=
  ∀ k k', deed.ticket? = some k → deed'.ticket? = some k' → k.partition = k'.partition →
    k.number ≤ k'.number ∧ ∀ place done, deed = .stored k place done → k.number < k'.number

/-- A message that was handed over keeps its number. -/
theorem getElem?_handedTo_append {p : Partition} {deeds : List Deed} {number : Nat}
    {m : InputMessage} (h : (handedTo p deeds)[number]? = some m) (deeds' : List Deed) :
    (handedTo p (deeds ++ deeds'))[number]? = some m := by
  have happend : handedTo p (deeds ++ deeds') = handedTo p deeds ++ handedTo p deeds' := by
    simp [handedTo]
  rw [happend, List.getElem?_append_left (List.getElem?_eq_some_iff.mp h).1]
  exact h

/-- A delivery has finished in the traffic if a worker has seen it finish. -/
theorem finished_mem_moves {deeds : List Deed} {k : Ticket} {outcome : Outcome} :
    .finished k outcome ∈ moves deeds ↔ .moved (.finished k outcome) ∈ deeds := by
  unfold moves
  rw [List.mem_filterMap]
  constructor
  · rintro ⟨deed, hmem, hmove⟩
    cases deed <;> simp_all [Deed.move?]
  · exact fun hmem => ⟨_, hmem, rfl⟩

/-- A place that was stored for a partition was stored for one of its tickets. -/
theorem mem_storedFor {p : Partition} {deeds : List Deed} {number : Nat} {place : Coordinates} :
    (number, place) ∈ storedFor p deeds ↔ ∃ done, .stored ⟨p, number⟩ place done ∈ deeds := by
  unfold storedFor
  rw [List.mem_filterMap]
  constructor
  · rintro ⟨deed, hmem, hstored⟩
    cases deed with
    | stored k place' done =>
      obtain ⟨rfl, rfl, rfl⟩ : k.partition = p ∧ k.number = number ∧ place' = place := by
        simpa [Deed.stored?] using hstored
      exact ⟨done, hmem⟩
    | _ => cases hstored
  · rintro ⟨done, hmem⟩
    exact ⟨_, hmem, by simp [Deed.stored?]⟩

namespace Shift

variable {setting : Setting} {shift shift' : Shift} {deeds : List Deed} {deed : Deed}

/-! ## One step -/

/-- A worker is at the message after those it has finished. -/
theorem Step.number_eq (hstep : Step setting shift deed shift') {k : Ticket}
    (hticket : deed.ticket? = some k) : k.number = shift.finished k.partition := by
  cases hstep with
  | take => cases hticket; rfl
  | work _ _ _ hadvance =>
    obtain rfl := Option.some.inj (hadvance.subject.symm.trans hticket)
    rfl
  | store => cases hticket; rfl
  | _ => cases hticket

/-- No step undoes a finished message. -/
theorem Step.finished_le (hstep : Step setting shift deed shift') (p : Partition) :
    shift.finished p ≤ shift'.finished p := by
  cases hstep with
  | @store q =>
    by_cases hp : p = q
    · subst hp
      simp
    · simp [hp]
  | _ => exact Nat.le_refl _

/-- After the place is stored, the message is finished. -/
theorem Step.lt_finished {k : Ticket} {place : Coordinates} {done : Bool}
    (hstep : Step setting shift (.stored k place done) shift') :
    k.number < shift'.finished k.partition := by
  cases hstep
  simp [ticket]

/-- The deeds so far are in order, and none is for a message the workers have not reached. -/
structure Paced (shift : Shift) (deeds : List Deed) : Prop where
  reached : ∀ deed ∈ deeds, ∀ k, deed.ticket? = some k → k.number ≤ shift.finished k.partition
  passed : ∀ k place done, .stored k place done ∈ deeds → k.number < shift.finished k.partition
  ordered : deeds.Pairwise Deed.Precedes

/-- Every step keeps the deeds in order. -/
theorem Paced.step (h : shift.Paced deeds) (hstep : Step setting shift deed shift') :
    shift'.Paced (deeds ++ [deed]) where
  reached := by
    intro d hmem k hticket
    rcases List.mem_append.mp hmem with hold | hnew
    · exact (h.reached d hold k hticket).trans (hstep.finished_le _)
    · rw [List.mem_singleton.mp hnew] at hticket
      exact (Nat.le_of_eq (hstep.number_eq hticket)).trans (hstep.finished_le _)
  passed := by
    intro k place done hmem
    rcases List.mem_append.mp hmem with hold | hnew
    · exact Nat.lt_of_lt_of_le (h.passed k place done hold) (hstep.finished_le _)
    · rw [← List.mem_singleton.mp hnew] at hstep
      exact hstep.lt_finished
  ordered := by
    refine List.pairwise_append.mpr ⟨h.ordered, List.pairwise_singleton _ _, ?_⟩
    intro d hold d' hnew k k' hticket hticket' hsame
    rw [List.mem_singleton.mp hnew] at hticket'
    rw [hstep.number_eq hticket', ← hsame]
    refine ⟨h.reached d hold k hticket, ?_⟩
    rintro place done rfl
    exact h.passed k place done hold

section Run

variable {ttl maxEntries queueSize : Nat} {s : Shared}

/-! ## A whole run -/

/-- In every run, the deeds are in order. -/
theorem Run.paced (hrun : Run setting (.start ttl maxEntries queueSize s) deeds shift) :
    shift.Paced deeds := by
  induction hrun with
  | nil => exact ⟨by simp, by simp, List.Pairwise.nil⟩
  | snoc _ hstep ih => exact ih.step hstep

/-- The message that a worker takes is the one handed over with its number. -/
theorem Run.handed_of_taken (hrun : Run setting (.start ttl maxEntries queueSize s) deeds shift)
    {k : Ticket} {m : InputMessage} (hmem : .taken k m ∈ deeds) :
    (handedTo k.partition deeds)[k.number]? = some m := by
  obtain ⟨before, after, rfl⟩ := List.append_of_mem hmem
  obtain ⟨mid, next, hbefore, hstep⟩ := hrun.step_of_mem
  cases hstep with
  | @take p w _ rest hlooked hworker hpresent hfree hqueue =>
    obtain ⟨past, left, haccounts⟩ := hbefore.books p
    rw [Crew.worker_eq hworker] at haccounts
    have hmessages : w.messages = m :: rest := by simp [Worker.messages, hfree, hqueue]
    exact getElem?_handedTo_append (haccounts.current hmessages) _

/-- The place that is stored is the one after the message handed over with its number, and that
message has finished before. -/
theorem Run.of_stored {k : Ticket} {place : Coordinates} {done : Bool} {before after : List Deed}
    (hrun : Run setting (.start ttl maxEntries queueSize s)
      (before ++ .stored k place done :: after) shift) :
    (handedTo k.partition before)[k.number]?.map InputMessage.next = some place ∧
      ∃ outcome, .moved (.finished k outcome) ∈ before := by
  obtain ⟨mid, next, hbefore, hstep⟩ := hrun.step_of_mem
  cases hstep with
  | @store p w m outcome _ hworker hbegun hfinished =>
    obtain ⟨past, left, haccounts⟩ := hbefore.books p
    rw [Crew.worker_eq hworker] at haccounts
    have hmessages : w.messages = m :: w.queue := by simp [Worker.messages, hbegun]
    have hcurrent := haccounts.current hmessages
    refine ⟨by simp [ticket, hcurrent], outcome, ?_⟩
    exact finished_mem_moves.mp ((hbefore.traffic.finished_iff _ _).mpr hfinished)

/-- If a place is stored, its message has finished. -/
theorem Run.finished_of_stored
    (hrun : Run setting (.start ttl maxEntries queueSize s) deeds shift) {k : Ticket}
    {place : Coordinates} {done : Bool} (hmem : .stored k place done ∈ deeds) :
    ∃ outcome, .moved (.finished k outcome) ∈ deeds := by
  obtain ⟨before, after, rfl⟩ := List.append_of_mem hmem
  obtain ⟨-, outcome, hfinished⟩ := hrun.of_stored
  exact ⟨outcome, List.mem_append_left _ hfinished⟩

/-- A delivery of a worker came in when the worker took its message. -/
theorem Run.taken_of_entered (hrun : Run setting (.start ttl maxEntries queueSize s) deeds shift)
    {k : Ticket} {intake : Intake} (hmem : .entered k intake ∈ moves deeds) :
    ∃ m, .taken k m ∈ deeds ∧ intake = m.intake := by
  obtain ⟨deed, hdeed, hmove⟩ := List.mem_filterMap.mp hmem
  cases deed with
  | taken k' m =>
    cases hmove
    exact ⟨m, hdeed, rfl⟩
  | moved move =>
    obtain rfl := Option.some.inj hmove
    obtain ⟨before, after, rfl⟩ := List.append_of_mem hdeed
    obtain ⟨mid, next, -, hstep⟩ := hrun.step_of_mem
    cases hstep with
    | work _ _ _ hadvance => exact absurd rfl (hadvance.ne_entered _ _)
  | _ => cases hmove

/-- A message that does not finish keeps back the places of all later ones of its partition. -/
theorem Run.length_storedFor_le
    (hrun : Run setting (.start ttl maxEntries queueSize s) deeds shift) {k : Ticket}
    (hunfinished : ∀ outcome, .moved (.finished k outcome) ∉ deeds) :
    (storedFor k.partition deeds).length ≤ k.number := by
  by_contra hlt
  obtain ⟨past, left, haccounts⟩ := hrun.books k.partition
  have hstored := haccounts.stored_eq
  have hlength : k.number < past.length := by
    rw [hstored, List.length_mapIdx] at hlt
    exact Nat.not_le.mp hlt
  have hmem : (k.number, past[k.number].next) ∈ storedFor k.partition deeds := by
    rw [hstored]
    exact List.mem_mapIdx.mpr ⟨k.number, hlength, rfl⟩
  obtain ⟨done, hdeed⟩ := mem_storedFor.mp hmem
  obtain ⟨outcome, hfinished⟩ := hrun.finished_of_stored hdeed
  exact hunfinished outcome hfinished

/-- The outputs of a partition are published in the order of their messages. -/
theorem Run.publications_ordered
    (hrun : Run setting (.start ttl maxEntries queueSize s) deeds shift) :
    (publications (moves deeds)).Pairwise fun a b =>
      a.delivery.partition = b.delivery.partition → a.delivery.number < b.delivery.number := by
  have hle : (publications (moves deeds)).Pairwise fun a b =>
      a.delivery.partition = b.delivery.partition → a.delivery.number ≤ b.delivery.number := by
    unfold publications moves
    rw [List.pairwise_filterMap, List.pairwise_filterMap]
    refine hrun.paced.ordered.imp ?_
    intro d d' hprecedes move hmove move' hmove' a ha b hb hsame
    rw [Move.publication?_eq_some.mp ha] at hmove
    rw [Move.publication?_eq_some.mp hb] at hmove'
    have hticket := Deed.ticket?_of_move? hmove rfl
    have hticket' := Deed.ticket?_of_move? hmove' rfl
    exact (hprecedes _ _ hticket hticket' hsame).1
  have hne := List.pairwise_map.mp hrun.traffic.publications_nodup
  refine (hle.and hne).imp ?_
  rintro a b ⟨hnumber, hdistinct⟩ hsame
  refine Nat.lt_of_le_of_ne (hnumber hsame) fun heq => hdistinct ?_
  obtain ⟨⟨p, number⟩, _, _⟩ := a
  obtain ⟨⟨p', number'⟩, _, _⟩ := b
  cases hsame
  cases heq
  rfl

/-- An output is published for the message handed over with the number of its delivery. -/
theorem Run.handed_of_publication
    (hrun : Run setting (.start ttl maxEntries queueSize s) deeds shift)
    {a : Publication Ticket} (ha : a ∈ publications (moves deeds)) :
    ∃ m, (handedTo a.delivery.partition deeds)[a.delivery.number]? = some m ∧
      setting.Emits m.intake a.output := by
  obtain ⟨intake, hintake, hemits⟩ := hrun.traffic.emits ha
  obtain ⟨m, htaken, rfl⟩ := hrun.taken_of_entered ((hrun.traffic.entered_iff _ _).mpr hintake)
  exact ⟨m, hrun.handed_of_taken htaken, hemits⟩

/-- The order of the deeds for a partition in a run. -/
structure Orderly (setting : Setting) (p : Partition) (deeds : List Deed) : Prop where
  /-- Unless a caller gave up, the messages handed over are the first of those that were to
  be. -/
  handed : (∀ m, .abandoned m ∉ deeds) → handedTo p deeds <+: calledFor p deeds
  /-- The places stored are the ones after the first messages handed over. -/
  stored : (storedFor p deeds).map Prod.snd <+: (handedTo p deeds).map InputMessage.next
  /-- Each message is taken under its number among those handed over. -/
  taken : ∀ number m, .taken ⟨p, number⟩ m ∈ deeds → (handedTo p deeds)[number]? = some m
  /-- A place is stored after its message has finished, and before anything is done for the
  next. -/
  between : ∀ before after number place done,
    deeds = before ++ .stored ⟨p, number⟩ place done :: after →
    (handedTo p deeds)[number]?.map InputMessage.next = some place ∧
      (∃ outcome, .moved (.finished ⟨p, number⟩ outcome) ∈ before) ∧
      (∀ deed ∈ before, ∀ number', deed.ticket? = some ⟨p, number'⟩ → number' ≤ number) ∧
      ∀ deed ∈ after, ∀ number', deed.ticket? = some ⟨p, number'⟩ → number < number'
  /-- The outputs are published in the order of their messages. -/
  published : (publications (moves deeds)).Pairwise fun a b =>
    a.delivery.partition = p → b.delivery.partition = p → a.delivery.number < b.delivery.number
  /-- Each output is for the message with its number. -/
  emitted : ∀ number output marked, .moved (.published ⟨p, number⟩ output marked) ∈ deeds →
    ∃ m, (handedTo p deeds)[number]? = some m ∧ setting.Emits m.intake output
  /-- As long as a message has not finished, the places after it and after all later messages
  are not stored. -/
  kept : ∀ number, (∀ outcome, .moved (.finished ⟨p, number⟩ outcome) ∉ deeds) →
    (storedFor p deeds).length ≤ number
  /-- After the signal the worker takes one more message at most, for which it had looked before. -/
  halted : ∀ before after, deeds = before ++ .signalled :: after → Halting p before after

/-- Stored offsets never pass unfinished work: in every run of a crew, the deeds for each
partition are in order. -/
theorem Run.orderly (hrun : Run setting (.start ttl maxEntries queueSize s) deeds shift)
    (p : Partition) : Orderly setting p deeds where
  handed := fun hnone => hrun.handedTo_prefix hnone p
  stored := by
    obtain ⟨past, left, haccounts⟩ := hrun.books p
    rw [haccounts.places, haccounts.handed_eq, List.map_append]
    exact List.prefix_append _ _
  taken := fun number m hmem => hrun.handed_of_taken hmem
  between := by
    rintro before after number place done rfl
    obtain ⟨hplace, hfinished⟩ := hrun.of_stored
    have hordered := List.pairwise_append.mp hrun.paced.ordered
    obtain ⟨m, hm, rfl⟩ := Option.map_eq_some_iff.mp hplace
    refine ⟨?_, hfinished, fun deed hmem number' hticket => ?_, fun deed hmem number' hticket => ?_⟩
    · rw [getElem?_handedTo_append hm]
      rfl
    · exact (hordered.2.2 deed hmem _ (List.mem_cons_self ..) _ _ hticket rfl rfl).1
    · exact ((List.pairwise_cons.mp hordered.2.1).1 deed hmem _ _ rfl hticket rfl).2 _ _ rfl
  published := hrun.publications_ordered.imp fun hlt hp hp' => hlt (hp.trans hp'.symm)
  emitted := fun number output marked hmem =>
    hrun.handed_of_publication (a := ⟨⟨p, number⟩, output, marked⟩)
      (mem_publications.mpr (List.mem_filterMap.mpr ⟨_, hmem, rfl⟩))
  kept := fun number hunfinished => hrun.length_storedFor_le (k := ⟨p, number⟩) hunfinished
  halted := by
    rintro before after rfl
    exact hrun.halting p

/-- Of three messages, the first is finished and its place is not stored; the output of the second
is refused, the service is to stop, and the worker ends before the third. -/
theorem Run.orderly_of_stopped :
    ∃ (deeds : List Deed) (shift : Shift),
      Run ⟨false, fun _ _ => False⟩ (.start 10 2 2 ⟨.new 10 2, 0, 0, 0, [], []⟩) deeds shift ∧
        (handedTo ⟨"in", 0⟩ deeds).map (fun m => m.source.offset) = [7, 8, 9] ∧
        storedFor ⟨"in", 0⟩ deeds = [(0, ⟨"in", 0, 8⟩)] ∧
        Orderly ⟨false, fun _ _ => False⟩ ⟨"in", 0⟩ deeds := by
  have h : Run ⟨false, fun _ _ => False⟩ (.start 10 2 2 ⟨.new 10 2, 0, 0, 0, [], []⟩) [] _ := .nil
  have h := h.snoc (.call ⟨⟨"in", 0, 7⟩, []⟩ rfl rfl)
  have h := h.snoc (.handOver rfl rfl (by decide))
  have h := h.snoc (.call ⟨⟨"in", 0, 8⟩, []⟩ rfl rfl)
  have h := h.snoc (.handOver rfl rfl (by decide))
  have h := h.snoc (.look (p := ⟨"in", 0⟩) rfl rfl rfl rfl)
  have h := h.snoc (.take (p := ⟨"in", 0⟩) rfl rfl rfl rfl rfl)
  have h := h.snoc (.work (p := ⟨"in", 0⟩) rfl rfl rfl (.settle rfl))
  have h := h.snoc (.work (p := ⟨"in", 0⟩) rfl rfl rfl (.commit rfl))
  have h := h.snoc (.work (p := ⟨"in", 0⟩) rfl rfl rfl .publish)
  have h := h.snoc (.work (p := ⟨"in", 0⟩) rfl rfl rfl .accept)
  have h := h.snoc (.store (p := ⟨"in", 0⟩) false rfl rfl rfl)
  have h := h.snoc (.look (p := ⟨"in", 0⟩) rfl rfl rfl rfl)
  have h := h.snoc (.take (p := ⟨"in", 0⟩) rfl rfl rfl rfl rfl)
  have h := h.snoc (.work (p := ⟨"in", 0⟩) rfl rfl rfl (.settle rfl))
  have h := h.snoc (.work (p := ⟨"in", 0⟩) rfl rfl rfl (.commit rfl))
  have h := h.snoc (.work (p := ⟨"in", 0⟩) rfl rfl rfl .refuse)
  have h := h.snoc (.work (p := ⟨"in", 0⟩) rfl rfl rfl .withdraw)
  have h := h.snoc .signal
  have h := h.snoc (.stop (p := ⟨"in", 0⟩) rfl rfl rfl (.inr ⟨_, rfl⟩))
  have h := h.snoc (.call ⟨⟨"in", 0, 9⟩, []⟩ rfl rfl)
  have h := h.snoc (.handOver rfl rfl (by decide))
  exact ⟨_, _, h, by decide +kernel, by decide +kernel, h.orderly _⟩

/-- A message that its caller gave up is missing from those handed over, so the places stored are
not those after the first messages that were to be. And a worker that has looked before the signal
takes a message after it. -/
theorem Run.order_broken :
    (∃ (deeds : List Deed) (shift : Shift),
      Run ⟨false, fun _ _ => False⟩ (.start 10 2 1 ⟨.new 10 2, 0, 0, 0, [], []⟩) deeds shift ∧
        (calledFor ⟨"in", 0⟩ deeds).map (fun m => m.source.offset) = [7, 8, 9] ∧
        (storedFor ⟨"in", 0⟩ deeds).map (fun stored => stored.2.offset) = [8, 10] ∧
        ¬ (storedFor ⟨"in", 0⟩ deeds).map Prod.snd <+:
          (calledFor ⟨"in", 0⟩ deeds).map InputMessage.next) ∧
      ∃ (before after : List Deed) (shift : Shift) (m : InputMessage),
        Run ⟨false, fun _ _ => False⟩ (.start 10 2 1 ⟨.new 10 2, 0, 0, 0, [], []⟩)
            (before ++ .signalled :: after) shift ∧
          m ∈ handedTo ⟨"in", 0⟩ before ∧ .taken ⟨⟨"in", 0⟩, 0⟩ m ∈ after := by
  have h : Run ⟨false, fun _ _ => False⟩ (.start 10 2 1 ⟨.new 10 2, 0, 0, 0, [], []⟩) [] _ := .nil
  have h := h.snoc (.call ⟨⟨"in", 0, 7⟩, []⟩ rfl rfl)
  have h := h.snoc (.handOver rfl rfl (by decide))
  constructor
  · have h := h.snoc (.call ⟨⟨"in", 0, 8⟩, []⟩ rfl rfl)
    have h := h.snoc (.abandon rfl)
    have h := h.snoc (.look (p := ⟨"in", 0⟩) rfl rfl rfl rfl)
    have h := h.snoc (.take (p := ⟨"in", 0⟩) rfl rfl rfl rfl rfl)
    have h := h.snoc (.work (p := ⟨"in", 0⟩) rfl rfl rfl (.settle rfl))
    have h := h.snoc (.work (p := ⟨"in", 0⟩) rfl rfl rfl (.commit rfl))
    have h := h.snoc (.work (p := ⟨"in", 0⟩) rfl rfl rfl .publish)
    have h := h.snoc (.work (p := ⟨"in", 0⟩) rfl rfl rfl .accept)
    have h := h.snoc (.store (p := ⟨"in", 0⟩) true rfl rfl rfl)
    have h := h.snoc (.call ⟨⟨"in", 0, 9⟩, []⟩ rfl rfl)
    have h := h.snoc (.handOver rfl rfl (by decide))
    have h := h.snoc (.look (p := ⟨"in", 0⟩) rfl rfl rfl rfl)
    have h := h.snoc (.take (p := ⟨"in", 0⟩) rfl rfl rfl rfl rfl)
    have h := h.snoc (.work (p := ⟨"in", 0⟩) rfl rfl rfl (.settle rfl))
    have h := h.snoc (.work (p := ⟨"in", 0⟩) rfl rfl rfl (.commit rfl))
    have h := h.snoc (.work (p := ⟨"in", 0⟩) rfl rfl rfl .publish)
    have h := h.snoc (.work (p := ⟨"in", 0⟩) rfl rfl rfl .accept)
    have h := h.snoc (.store (p := ⟨"in", 0⟩) true rfl rfl rfl)
    exact ⟨_, _, h, by decide +kernel, by decide +kernel, by decide +kernel⟩
  · have h := h.snoc (.look (p := ⟨"in", 0⟩) rfl rfl rfl rfl)
    have h := h.snoc .signal
    have h := h.snoc (.take (p := ⟨"in", 0⟩) rfl rfl rfl rfl rfl)
    have h : Run _ _ ([_, _, _] ++ .signalled :: [_]) _ := h
    exact ⟨_, _, _, ⟨⟨"in", 0, 7⟩, []⟩, h, by decide +kernel, .head _⟩

end Run

end Shift

end MarketFeed
