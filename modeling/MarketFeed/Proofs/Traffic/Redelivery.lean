import MarketFeed.Partition.Worker
import MarketFeed.Proofs.Pipeline.Place
import MarketFeed.Proofs.Traffic.Cover

/-!
# What a dropped message is a copy of

A message is dropped in favour of another delivery that goes under the same id. The id of a
message is the one that its bytes state, or else the text of its place, and a text belongs to one
place only. So two messages go under one id if they state it both, if they were read from one
place, or if one states the text of the other's place. Among the ids that an event states is the
empty one: all events without an id go under it, wherever they were read from.
-/

namespace MarketFeed

/-- No id that is recovered from a message that is no event is empty. -/
theorem probeEventId_ne_empty {bytes : Bytes} {id : String} (h : probeEventId bytes = some id) :
    id ≠ "" := by
  unfold probeEventId at h
  rintro rfl
  split at h <;> simp_all

/-- Only an event states the empty id. -/
theorem exists_event_of_statedId?_empty {bytes : Bytes} (h : statedId? bytes = some "") :
    ∃ event, RawEvent.decode bytes = .ok event ∧ event.id = "" := by
  unfold statedId? at h
  split at h
  · exact ⟨_, ‹_›, Option.some.inj h⟩
  · exact absurd rfl (probeEventId_ne_empty h)

/-- Two messages go under one id. -/
inductive InputMessage.Namesakes (m m' : InputMessage) : Prop
  /-- Both state the id. -/
  | stated (id : String) (hne : id ≠ "") (h : statedId? m.payload = some id)
      (h' : statedId? m'.payload = some id)
  /-- Neither states one, and both were read from the same place. -/
  | place (h : statedId? m.payload = none) (h' : statedId? m'.payload = none)
      (hplace : m.source = m'.source)
  /-- The second states the text of the place that the first was read from. -/
  | coincidence (h : statedId? m.payload = none)
      (h' : statedId? m'.payload = some m.source.text)
  /-- The first states the text of the place that the second was read from. -/
  | coincidence' (h : statedId? m.payload = some m'.source.text)
      (h' : statedId? m'.payload = none)
  /-- Both are events, and the id of both is empty. -/
  | nameless (event event' : RawEvent) (h : RawEvent.decode m.payload = .ok event)
      (h' : RawEvent.decode m'.payload = .ok event') (hempty : event.id = "")
      (hempty' : event'.id = "")

/-- Messages are namesakes if what they are taken for goes under one id. -/
theorem InputMessage.namesakes_of_id {m m' : InputMessage}
    (h : (Intake.ofMessage m.payload m.source).id = (Intake.ofMessage m'.payload m'.source).id) :
    m.Namesakes m' := by
  rw [Intake.id_ofMessage, Intake.id_ofMessage] at h
  cases hstated : statedId? m.payload with
  | none =>
    cases hstated' : statedId? m'.payload with
    | none =>
      rw [hstated, hstated'] at h
      exact .place hstated hstated' (Coordinates.text_injective h)
    | some id =>
      rw [hstated, hstated'] at h
      obtain rfl : m.source.text = id := h
      exact .coincidence hstated hstated'
  | some id =>
    cases hstated' : statedId? m'.payload with
    | none =>
      rw [hstated, hstated'] at h
      obtain rfl : id = m'.source.text := h
      exact .coincidence' hstated hstated'
    | some id' =>
      rw [hstated, hstated'] at h
      obtain rfl : id = id' := h
      by_cases hempty : id = ""
      · subst hempty
        obtain ⟨event, hdecode, hid⟩ := exists_event_of_statedId?_empty hstated
        obtain ⟨event', hdecode', hid'⟩ := exists_event_of_statedId?_empty hstated'
        exact .nameless event event' hdecode hdecode' hid hid'
      · exact .stated id hempty hstated hstated'

/-- Namesakes are just the messages that go under one id. -/
theorem InputMessage.namesakes_iff {m m' : InputMessage} :
    m.Namesakes m' ↔
      (Intake.ofMessage m.payload m.source).id = (Intake.ofMessage m'.payload m'.source).id := by
  constructor
  · intro h
    rw [Intake.id_ofMessage, Intake.id_ofMessage]
    cases h with
    | stated id _ h h' => simp [h, h']
    | place h h' hplace => rw [h, h', hplace]
    | coincidence h h' => simp [h, h']
    | coincidence' h h' => simp [h, h']
    | nameless event event' h h' hempty hempty' => simp [statedId?, h, h', hempty, hempty']
  · exact namesakes_of_id

namespace Traffic

variable {ι : Type} [DecidableEq ι] {setting : Setting} {t t' : Traffic ι}

/-- What a delivery is taken for when it moves. -/
theorem Step.exists_intake {i : ι} {outcome : Outcome}
    (h : Step setting t (.finished i outcome) t') : ∃ intake, t.intake? i = some intake := by
  cases h with
  | @advance j intake _ _ _ _ hpassage hadvance =>
    obtain rfl : i = j := Option.some.inj hadvance.subject
    exact ⟨intake, by simp [intake?, hpassage]⟩

/-- The messages of a run: what each delivery is taken for is what its message is taken for. -/
def Delivers (messages : ι → InputMessage) (moves : List (Move ι)) : Prop :=
  ∀ i intake, .entered i intake ∈ moves →
    intake = .ofMessage (messages i).payload (messages i).source

/-- In every run from an empty guard, a message is dropped only if a namesake of it came in by
another delivery before. -/
theorem Run.namesake_of_dropped {ttl maxEntries : Nat} {s : Shared} {moves : List (Move ι)}
    {messages : ι → InputMessage} {k : ι}
    (hrun : Run setting (.start ttl maxEntries s) moves t) (hmessages : Delivers messages moves)
    (hstep : Step setting t (.finished k .duplicate) t') :
    ∃ j intake, j ≠ k ∧ .entered j intake ∈ moves ∧ (messages j).Namesakes (messages k) := by
  obtain ⟨intake, hintake⟩ := hstep.exists_intake
  have hdropped := hmessages k intake ((hrun.entered_iff k intake).mpr hintake)
  obtain ⟨j, passage, marked, hne, hpassage, hid, -⟩ := hstep.holder_of_dropped hrun.held hintake
  have hentered : .entered j passage.intake ∈ moves :=
    (hrun.entered_iff _ _).mpr (by simp [intake?, hpassage])
  have hother := hmessages j passage.intake hentered
  rw [hother, hdropped] at hid
  exact ⟨j, passage.intake, hne, hentered, InputMessage.namesakes_iff.mpr hid⟩

/-- A message that is no event comes in twice, and is dropped the second time. -/
theorem Run.namesake_of_dropped_again :
    ∃ (messages : Nat → InputMessage) (moves : List (Move Nat)) (t t' : Traffic Nat),
      Run ⟨false, fun _ _ => False⟩ (.start 10 2 ⟨.new 10 2, 0, 0, 0, [], []⟩) moves t ∧
        Delivers messages moves ∧
        Step ⟨false, fun _ _ => False⟩ t (.finished 1 .duplicate) t' ∧
        ∃ j intake, j ≠ 1 ∧ .entered j intake ∈ moves ∧
          (messages j).Namesakes (messages 1) := by
  let stray : Intake := .stray "in:0:7" none ⟨"in", 0, 7⟩ "not a document of the expected shape"
  have hstray : stray = .ofMessage (utf8 "?") ⟨"in", 0, 7⟩ := rfl
  have h : Run ⟨false, fun _ _ => False⟩ (.start 10 2 ⟨.new 10 2, 0, 0, 0, [], []⟩)
      ([] : List (Move Nat)) _ := .nil
  have h := h.snoc (.enter (i := 0) stray rfl)
  have h := h.snoc (.advance (i := 0) rfl (.settle rfl))
  have h := h.snoc (.advance (i := 0) rfl (.commit rfl))
  have h := h.snoc (.enter (i := 1) stray rfl)
  refine ⟨fun _ => ⟨⟨"in", 0, 7⟩, utf8 "?"⟩, _, _, _, h, ?messages,
    .advance (i := 1) rfl (.drop rfl),
    h.namesake_of_dropped ?messages (.advance (i := 1) rfl (.drop rfl))⟩
  case messages =>
    intro i intake hentered
    simp only [List.nil_append, List.cons_append, List.mem_cons, reduceCtorEq, Move.entered.injEq,
      List.not_mem_nil, or_false, false_or] at hentered
    rcases hentered with ⟨-, rfl⟩ | ⟨-, rfl⟩ <;> exact hstray

/-- Two events without an id are read from different places, and the second is dropped, though
no delivery before it states an id, or was read from its place. -/
theorem Run.nameless_dropped :
    ∃ (messages : Nat → InputMessage) (moves : List (Move Nat)) (t t' : Traffic Nat),
      Run ⟨false, fun _ _ => False⟩ (.start 10 2 ⟨.new 10 2, 0, 0, 0, [], []⟩) moves t ∧
        Delivers messages moves ∧
        Step ⟨false, fun _ _ => False⟩ t (.finished 1 .duplicate) t' ∧
        ∀ j intake, j ≠ 1 → .entered j intake ∈ moves →
          (messages j).source ≠ (messages 1).source ∧
            ¬ ∃ id, id ≠ "" ∧ statedId? (messages j).payload = some id ∧
              statedId? (messages 1).payload = some id := by
  let payload : Bytes := utf8 "[[\"\",\"t\",\"1\",\"x\",\"p\",0,0],[]]"
  let event : RawEvent :=
    ⟨⟨"", "t", "1", "x", "p", 0, 0⟩, ⟨"", "", "", 0, 0, none, none, ⟨none, 0, []⟩⟩⟩
  have hdecode : RawEvent.decode payload = .ok event := rfl
  have hintake (source : Coordinates) :
      Intake.ofMessage payload source = .event event (some source) := by
    simp [Intake.ofMessage, hdecode]
  have h : Run ⟨false, fun _ _ => False⟩ (.start 10 2 ⟨.new 10 2, 0, 0, 0, [], []⟩)
      ([] : List (Move Nat)) _ := .nil
  have h := h.snoc (.enter (i := 0) (.event event (some ⟨"in", 0, 0⟩)) rfl)
  have h := h.snoc (.advance (i := 0) rfl (.settle rfl))
  have h := h.snoc (.advance (i := 0) rfl (.commit rfl))
  have h := h.snoc (.enter (i := 1) (.event event (some ⟨"in", 0, 1⟩)) rfl)
  refine ⟨fun j => ⟨⟨"in", 0, .ofNat j⟩, payload⟩, _, _, _, h, ?messages,
    .advance (i := 1) rfl (.drop rfl), ?apart⟩
  case messages =>
    intro i intake hentered
    rw [hintake]
    simp only [List.nil_append, List.cons_append, List.mem_cons, reduceCtorEq, Move.entered.injEq,
      List.not_mem_nil, or_false, false_or] at hentered
    obtain ⟨rfl, rfl⟩ | ⟨rfl, rfl⟩ := hentered <;> rfl
  case apart =>
    intro j intake hne hentered
    obtain rfl : j = 0 := by simp_all
    refine ⟨by decide, ?_⟩
    rintro ⟨id, hid, -, hstated⟩
    simp only [statedId?, hdecode, Option.some.injEq] at hstated
    exact hid hstated.symm

end Traffic

end MarketFeed
