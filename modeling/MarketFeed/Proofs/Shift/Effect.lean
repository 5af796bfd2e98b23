import MarketFeed.Proofs.Shift.Order

/-!
# What a crew puts out

The workers of a crew take messages of the same id more than once, and on several partitions.
All but one of them may be dropped, yet never all: a message is dropped only in favour of one
that has put something out, or that is not finished and keeps its place from being stored. So
a workload that is finished within the time to live leaves one output for each id. What it is
does not depend on the partitions, on the order of the steps, on how often messages came, and
on which outputs were refused at first.
-/

namespace MarketFeed.Shift

variable {setting : Setting} {ttl maxEntries queueSize : Nat} {s : Shared} {deeds : List Deed}
  {shift : Shift}

/-- A delivery that has finished came in when a worker took its message. -/
theorem Run.taken_of_finished
    (hrun : Run setting (.start ttl maxEntries queueSize s) deeds shift) {k : Ticket}
    {outcome : Outcome} (hfinished : .moved (.finished k outcome) ∈ deeds) :
    ∃ m, .taken k m ∈ deeds := by
  have houtcome := (hrun.traffic.finished_iff _ _).mp (finished_mem_moves.mpr hfinished)
  obtain ⟨passage, hpassage, -⟩ := Option.bind_eq_some_iff.mp houtcome
  have hintake : shift.traffic.intake? k = some passage.intake := by
    simp [Traffic.intake?, hpassage]
  obtain ⟨m, htaken, -⟩ := hrun.taken_of_entered ((hrun.traffic.entered_iff _ _).mpr hintake)
  exact ⟨m, htaken⟩

/-- A message that a worker takes comes in. -/
theorem entered_of_taken {k : Ticket} {m : InputMessage} (htaken : .taken k m ∈ deeds) :
    .entered k m.intake ∈ moves deeds :=
  List.mem_filterMap.mpr ⟨_, htaken, rfl⟩

/-- The messages that were taken, and their tickets. -/
def takenIn (deeds : List Deed) : List (Ticket × InputMessage) :=
  deeds.filterMap fun deed => match deed with
    | .taken k m => some (k, m)
    | _ => none

/-- The messages taken are told by the deeds. -/
theorem mem_takenIn {k : Ticket} {m : InputMessage} :
    (k, m) ∈ takenIn deeds ↔ .taken k m ∈ deeds := by
  unfold takenIn
  rw [List.mem_filterMap]
  constructor
  · rintro ⟨deed, hmem, htaken⟩
    cases deed <;> simp_all
  · exact fun hmem => ⟨_, hmem, rfl⟩

/-! ## No message is lost -/

/-- No event is lost: when a message was dropped, an output for its id was published, or another
message of the id was taken and has not finished; then no place after that message is stored. -/
theorem Run.published_or_kept
    (hrun : Run setting (.start ttl maxEntries queueSize s) deeds shift) {k : Ticket}
    (hdropped : .moved (.finished k .duplicate) ∈ deeds) :
    ∃ m, .taken k m ∈ deeds ∧
      ((∃ a ∈ publications (moves deeds), a.output.eventId = m.intake.id) ∨
        ∃ j m', j ≠ k ∧ .taken j m' ∈ deeds ∧ m'.intake.id = m.intake.id ∧
          (∀ outcome, .moved (.finished j outcome) ∉ deeds) ∧
          (∀ place done, .stored j place done ∉ deeds) ∧
          (storedFor j.partition deeds).length ≤ j.number) := by
  obtain ⟨m, htaken⟩ := hrun.taken_of_finished hdropped
  refine ⟨m, htaken, ?_⟩
  rcases hrun.traffic.published_or_unfinished (entered_of_taken htaken)
    (finished_mem_moves.mpr hdropped) with hpublished | ⟨j, intake, hentered, hid, hnone⟩
  · exact .inl hpublished
  · obtain ⟨m', htaken', rfl⟩ := hrun.taken_of_entered hentered
    have hunfinished : ∀ outcome, .moved (.finished j outcome) ∉ deeds := by
      intro outcome hfinished
      have houtcome := (hrun.traffic.finished_iff _ _).mp (finished_mem_moves.mpr hfinished)
      simp [hnone] at houtcome
    refine .inr ⟨j, m', ?_, htaken', hid, hunfinished, ?_, hrun.length_storedFor_le hunfinished⟩
    · rintro rfl
      exact hunfinished _ hdropped
    · intro place done hstored
      obtain ⟨outcome, hfinished⟩ := hrun.finished_of_stored hstored
      exact hunfinished outcome hfinished

/-- A message is dropped while another of its id is on its way, on another partition. -/
theorem Run.published_or_kept_of_sending :
    ∃ (deeds : List Deed) (shift : Shift) (k : Ticket),
      Run ⟨false, fun _ _ => False⟩ (.start 10 1 1 ⟨.new 10 1, 0, 0, 0, [], []⟩) deeds shift ∧
        .moved (.finished k .duplicate) ∈ deeds ∧ (publications (moves deeds)).length = 0 ∧
        ∃ m, .taken k m ∈ deeds ∧
          ((∃ a ∈ publications (moves deeds), a.output.eventId = m.intake.id) ∨
            ∃ j m', j ≠ k ∧ .taken j m' ∈ deeds ∧ m'.intake.id = m.intake.id ∧
              (∀ outcome, .moved (.finished j outcome) ∉ deeds) ∧
              (∀ place done, .stored j place done ∉ deeds) ∧
              (storedFor j.partition deeds).length ≤ j.number) := by
  let payload : Bytes := utf8 "\x7b\"envelope\":\x7b\"event_id\":\"a\"\x7d\x7d"
  have h : Run ⟨false, fun _ _ => False⟩ (.start 10 1 1 ⟨.new 10 1, 0, 0, 0, [], []⟩) [] _ := .nil
  have h := h.snoc (.call ⟨⟨"in", 0, 7⟩, payload⟩ rfl rfl)
  have h := h.snoc (.handOver rfl rfl (by decide))
  have h := h.snoc (.call ⟨⟨"in", 1, 4⟩, payload⟩ rfl rfl)
  have h := h.snoc (.handOver rfl rfl (by decide))
  have h := h.snoc (.look (p := ⟨"in", 0⟩) rfl rfl rfl rfl)
  have h := h.snoc (.take (p := ⟨"in", 0⟩) rfl rfl rfl rfl rfl)
  have h := h.snoc (.work (p := ⟨"in", 0⟩) rfl rfl rfl (.settle rfl))
  have h := h.snoc (.work (p := ⟨"in", 0⟩) rfl rfl rfl (.commit rfl))
  have h := h.snoc (.look (p := ⟨"in", 1⟩) rfl rfl rfl rfl)
  have h := h.snoc (.take (p := ⟨"in", 1⟩) rfl rfl rfl rfl rfl)
  have h := h.snoc (.work (p := ⟨"in", 1⟩) rfl rfl rfl (.drop rfl))
  refine ⟨_, _, ⟨⟨"in", 1⟩, 0⟩, h, ?dropped, rfl, h.published_or_kept ?dropped⟩
  exact List.mem_append_right _ (List.mem_singleton_self _)

/-! ## One output for each id, whatever the order -/

/-- A workload: each message states an id, and messages of one id are the same. -/
structure IsWorkload (workload : Finset Bytes) : Prop where
  states : ∀ payload ∈ workload, ∃ id, statedId? payload = some id
  same : ∀ payload ∈ workload, ∀ payload' ∈ workload,
    statedId? payload = statedId? payload' → payload = payload'

/-- A run that finishes a workload within the time to live: each message of it is taken, however
often and by whichever workers, and each message that is taken is of the workload and comes to
an outcome. The guard has room for all ids. -/
structure Completes (setting : Setting) (workload : Finset Bytes) (ttl maxEntries queueSize : Nat)
    (s : Shared) (deeds : List Deed) (shift : Shift) : Prop where
  run : Run setting (.start ttl maxEntries queueSize s) deeds shift
  room : (workload.image statedId?).card ≤ maxEntries
  short : shift.traffic.shared.instant < s.instant + ttl
  takes : ∀ payload ∈ workload, ∃ k m, .taken k m ∈ deeds ∧ m.payload = payload
  finishes : ∀ k m, .taken k m ∈ deeds →
    m.payload ∈ workload ∧ ∃ outcome, .moved (.finished k outcome) ∈ deeds

/-- One output was published for each id of a workload, and no other. -/
def OncePerId (workload : Finset Bytes) (deeds : List Deed) : Prop :=
  ((publications (moves deeds)).map fun a => a.output.eventId).Nodup ∧
    ∀ id, id ∈ (publications (moves deeds)).map (fun a => a.output.eventId) ↔
      ∃ payload ∈ workload, statedId? payload = some id

namespace Completes

variable {workload : Finset Bytes} (hworkload : IsWorkload workload)

include hworkload

/-- A message of the workload goes under the id it states. -/
theorem stated_of_taken (h : Completes setting workload ttl maxEntries queueSize s deeds shift)
    {k : Ticket} {m : InputMessage} (htaken : .taken k m ∈ deeds) :
    statedId? m.payload = some m.intake.id := by
  obtain ⟨id, hid⟩ := hworkload.states _ (h.finishes k m htaken).1
  rw [hid, ofMessage_id hid]

/-- The traffic of such a run is over within the time to live. -/
theorem concluded (h : Completes setting workload ttl maxEntries queueSize s deeds shift) :
    Traffic.Concluded setting ttl maxEntries s (moves deeds) shift.traffic where
  run := h.run.traffic
  short := h.short
  few := by
    have hids : ∀ k intake, .entered k intake ∈ moves deeds →
        intake.id ∈ (workload.image statedId?).image (Option.getD · "") := by
      intro k intake hentered
      obtain ⟨m, htaken, rfl⟩ := h.run.taken_of_entered hentered
      have hstated := Finset.mem_image_of_mem statedId? (h.finishes k m htaken).1
      rw [h.stated_of_taken hworkload htaken] at hstated
      exact Finset.mem_image_of_mem (Option.getD · "") hstated
    exact h.run.traffic.fewIds hids (Finset.card_image_le.trans h.room)
  finished := by
    intro k intake hentered
    obtain ⟨m, htaken, -⟩ := h.run.taken_of_entered hentered
    obtain ⟨-, outcome, hfinished⟩ := h.finishes k m htaken
    exact ⟨outcome, finished_mem_moves.mpr hfinished⟩

/-- Each id of the workload has one output. -/
theorem oncePerId (h : Completes setting workload ttl maxEntries queueSize s deeds shift) :
    OncePerId workload deeds := by
  refine ⟨(h.concluded hworkload).ids_nodup, fun id => ?_⟩
  rw [(h.concluded hworkload).mem_ids]
  constructor
  · rintro ⟨k, intake, hentered, rfl⟩
    obtain ⟨m, htaken, rfl⟩ := h.run.taken_of_entered hentered
    exact ⟨m.payload, (h.finishes k m htaken).1, h.stated_of_taken hworkload htaken⟩
  · rintro ⟨payload, hmem, hid⟩
    obtain ⟨k, m, htaken, rfl⟩ := h.takes payload hmem
    exact ⟨k, m.intake, entered_of_taken htaken, ofMessage_id hid _⟩

variable {backfills : Bool} {answer : String → LookupAnswer} {ttl' maxEntries' queueSize' : Nat}
  {s' : Shared} {deeds' : List Deed} {shift' : Shift}

/-- What one run of a workload puts out, another does as well. -/
theorem bareOutputs_subset
    (h : Completes ⟨backfills, fun id reply => reply = answer id⟩ workload ttl maxEntries
      queueSize s deeds shift)
    (h' : Completes ⟨backfills, fun id reply => reply = answer id⟩ workload ttl' maxEntries'
      queueSize' s' deeds' shift') :
    Traffic.bareOutputs (moves deeds) ⊆ Traffic.bareOutputs (moves deeds') := by
  refine (h.concluded hworkload).bareOutputs_subset (h'.concluded hworkload) ?_ ?_
  · intro k intake k' intake' hentered hentered' hsame
    obtain ⟨m, htaken, rfl⟩ := h.run.taken_of_entered hentered
    obtain ⟨m', htaken', rfl⟩ := h'.run.taken_of_entered hentered'
    have hid := h.stated_of_taken hworkload htaken
    have hid' := h'.stated_of_taken hworkload htaken'
    have hpayload : m.payload = m'.payload :=
      hworkload.same _ (h.finishes k m htaken).1 _ (h'.finishes k' m' htaken').1
        (by rw [hid, hid', hsame])
    rw [InputMessage.intake, InputMessage.intake, ← hpayload]
    exact ofMessage_alike hid _ _
  · intro k intake hentered
    obtain ⟨m, htaken, rfl⟩ := h.run.taken_of_entered hentered
    obtain ⟨k', m', htaken', hpayload⟩ := h'.takes _ (h.finishes k m htaken).1
    refine ⟨k', m'.intake, entered_of_taken htaken', ?_⟩
    exact ofMessage_id (hpayload ▸ h.stated_of_taken hworkload htaken) _

/-- Exactly-once effect whatever the order: two runs that finish a workload, with the same
historical store, put out the same up to instants and places, and one output for each id. -/
theorem outputs_perm
    (h : Completes ⟨backfills, fun id reply => reply = answer id⟩ workload ttl maxEntries
      queueSize s deeds shift)
    (h' : Completes ⟨backfills, fun id reply => reply = answer id⟩ workload ttl' maxEntries'
      queueSize' s' deeds' shift') :
    (Traffic.bareOutputs (moves deeds)).Perm (Traffic.bareOutputs (moves deeds')) ∧
      OncePerId workload deeds ∧ OncePerId workload deeds' := by
  refine ⟨?_, h.oncePerId hworkload, h'.oncePerId hworkload⟩
  refine (List.perm_ext_iff_of_nodup (h.concluded hworkload).bareOutputs_nodup
    (h'.concluded hworkload).bareOutputs_nodup).mpr fun output => ⟨?_, ?_⟩
  · exact fun hmem => h.bareOutputs_subset hworkload h' hmem
  · exact fun hmem => h'.bareOutputs_subset hworkload h hmem

end Completes

/-- A message that states an id and no more. -/
def idOnly : Bytes := utf8 "\x7b\"envelope\":\x7b\"event_id\":\"a\"\x7d\x7d"

/-- A workload of one message. -/
theorem isWorkload_idOnly : IsWorkload {idOnly} := by
  refine ⟨fun bytes hmem => ?_, by simp⟩
  rw [Finset.mem_singleton.mp hmem]
  exact ⟨"a", rfl⟩

/-- The message comes once. -/
theorem completes_idOnly : ∃ (deeds : List Deed) (shift : Shift),
    Completes ⟨false, fun _ reply => reply = .ok none⟩ {idOnly} 10 1 1
      ⟨.new 10 1, 0, 0, 0, [], []⟩ deeds shift ∧ (takenIn deeds).length = 1 := by
  have h : Run ⟨false, fun _ reply => reply = .ok none⟩
      (.start 10 1 1 ⟨.new 10 1, 0, 0, 0, [], []⟩) [] _ := .nil
  have h := h.snoc (.call ⟨⟨"in", 0, 7⟩, idOnly⟩ rfl rfl)
  have h := h.snoc (.handOver rfl rfl (by decide))
  have h := h.snoc (.look (p := ⟨"in", 0⟩) rfl rfl rfl rfl)
  have h := h.snoc (.take (p := ⟨"in", 0⟩) rfl rfl rfl rfl rfl)
  have h := h.snoc (.work (p := ⟨"in", 0⟩) rfl rfl rfl (.settle rfl))
  have h := h.snoc (.work (p := ⟨"in", 0⟩) rfl rfl rfl (.commit rfl))
  have h := h.snoc (.work (p := ⟨"in", 0⟩) rfl rfl rfl .publish)
  have h := h.snoc (.work (p := ⟨"in", 0⟩) rfl rfl rfl .accept)
  refine ⟨_, _, ⟨h, by simp, by decide, fun bytes hmem => ?_, fun k m htaken => ?_⟩, rfl⟩
  · rw [Finset.mem_singleton.mp hmem]
    exact ⟨⟨⟨"in", 0⟩, 0⟩, _, mem_takenIn.mp (List.mem_of_getElem? (i := 0) rfl), rfl⟩
  · have hpair : (k, m) ∈ [((⟨⟨"in", 0⟩, 0⟩ : Ticket), (⟨⟨"in", 0, 7⟩, idOnly⟩ : InputMessage))] :=
      mem_takenIn.mpr htaken
    rw [List.mem_singleton, Prod.mk.injEq] at hpair
    rw [hpair.1, hpair.2]
    exact ⟨Finset.mem_singleton_self _, _, List.mem_append_right _ (List.mem_singleton_self _)⟩

/-- The message comes on two partitions. -/
theorem completes_idOnly_twice : ∃ (deeds : List Deed) (shift : Shift),
    Completes ⟨false, fun _ reply => reply = .ok none⟩ {idOnly} 20 1 1
      ⟨.new 20 1, 3, 5, 0, [], []⟩ deeds shift ∧ (takenIn deeds).length = 2 := by
  have h : Run ⟨false, fun _ reply => reply = .ok none⟩
      (.start 20 1 1 ⟨.new 20 1, 3, 5, 0, [], []⟩) [] _ := .nil
  have h := h.snoc (.call ⟨⟨"in", 1, 4⟩, idOnly⟩ rfl rfl)
  have h := h.snoc (.handOver rfl rfl (by decide))
  have h := h.snoc (.call ⟨⟨"in", 0, 9⟩, idOnly⟩ rfl rfl)
  have h := h.snoc (.handOver rfl rfl (by decide))
  have h := h.snoc (.look (p := ⟨"in", 1⟩) rfl rfl rfl rfl)
  have h := h.snoc (.take (p := ⟨"in", 1⟩) rfl rfl rfl rfl rfl)
  have h := h.snoc (.work (p := ⟨"in", 1⟩) rfl rfl rfl (.settle rfl))
  have h := h.snoc (.work (p := ⟨"in", 1⟩) rfl rfl rfl (.commit rfl))
  have h := h.snoc (.look (p := ⟨"in", 0⟩) rfl rfl rfl rfl)
  have h := h.snoc (.take (p := ⟨"in", 0⟩) rfl rfl rfl rfl rfl)
  have h := h.snoc (.work (p := ⟨"in", 0⟩) rfl rfl rfl (.drop rfl))
  have h := h.snoc (.work (p := ⟨"in", 1⟩) rfl rfl rfl .publish)
  have h := h.snoc (.work (p := ⟨"in", 1⟩) rfl rfl rfl .accept)
  refine ⟨_, _, ⟨h, by simp, by decide, fun bytes hmem => ?_, fun k m htaken => ?_⟩, rfl⟩
  · rw [Finset.mem_singleton.mp hmem]
    exact ⟨⟨⟨"in", 1⟩, 0⟩, _, mem_takenIn.mp (List.mem_of_getElem? (i := 0) rfl), rfl⟩
  · have hpair : (k, m) ∈ [((⟨⟨"in", 1⟩, 0⟩ : Ticket), (⟨⟨"in", 1, 4⟩, idOnly⟩ : InputMessage)),
        (⟨⟨"in", 0⟩, 0⟩, ⟨⟨"in", 0, 9⟩, idOnly⟩)] := mem_takenIn.mpr htaken
    rw [List.mem_pair, Prod.mk.injEq, Prod.mk.injEq] at hpair
    rcases hpair with hfirst | hsecond
    · rw [hfirst.1, hfirst.2]
      exact ⟨Finset.mem_singleton_self _, _, List.mem_append_right _ (List.mem_singleton_self _)⟩
    · rw [hsecond.1, hsecond.2]
      exact ⟨Finset.mem_singleton_self _, _, List.mem_append_left _ (List.mem_append_left _
        (List.mem_append_right _ (List.mem_singleton_self _)))⟩

/-- A message that comes once leaves the same as one that comes on two partitions. -/
theorem Completes.outputs_perm_of_redelivered :
    ∃ (deeds deeds' : List Deed) (shift shift' : Shift), IsWorkload {idOnly} ∧
      Completes ⟨false, fun _ reply => reply = .ok none⟩ {idOnly} 10 1 1
        ⟨.new 10 1, 0, 0, 0, [], []⟩ deeds shift ∧
      Completes ⟨false, fun _ reply => reply = .ok none⟩ {idOnly} 20 1 1
        ⟨.new 20 1, 3, 5, 0, [], []⟩ deeds' shift' ∧
      (takenIn deeds).length = 1 ∧ (takenIn deeds').length = 2 ∧
      (Traffic.bareOutputs (moves deeds)).Perm (Traffic.bareOutputs (moves deeds')) ∧
      OncePerId {idOnly} deeds ∧ OncePerId {idOnly} deeds' := by
  obtain ⟨deeds, shift, h, hone⟩ := completes_idOnly
  obtain ⟨deeds', shift', h', htwo⟩ := completes_idOnly_twice
  exact ⟨deeds, deeds', shift, shift', isWorkload_idOnly, h, h', hone, htwo,
    h.outputs_perm isWorkload_idOnly h'⟩

end MarketFeed.Shift
