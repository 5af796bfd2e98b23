import MarketFeed.Proofs.Json.Members
import MarketFeed.Proofs.Message.Handling

/-!
# The identity of a message that is no event

What can be recovered of such a message is read off its bytes twice, once for the id it goes under
and once for the envelope in its dead letter. Both readers take the same part of the document for
the envelope. An envelope in the form of an object has the same id for both of them.

An envelope in the form of an array is another matter. To the reader of the id the envelope is a
record of one field, and an array for such a record has one item, but an envelope has more. So the
dead letter carries the envelope with its id, and goes under the place of the message.
-/

namespace MarketFeed

open Json

/-! ## The part for the envelope -/

/-- The bytes are a document, and the part carries the envelope in it. -/
def CarriesEnvelope (bytes : Bytes) (part : Tree) : Prop :=
  ∃ root, Document.ofBytes bytes = ⟨some root, true⟩ ∧ root.Carries "envelope" part

/-- At most one part carries the envelope. -/
theorem CarriesEnvelope.unique {bytes : Bytes} {part part' : Tree} (h : CarriesEnvelope bytes part)
    (h' : CarriesEnvelope bytes part') : part = part' := by
  obtain ⟨root, hroot, hcarries⟩ := h
  obtain ⟨root', hroot', hcarries'⟩ := h'
  obtain rfl : root = root' := by
    rw [hroot] at hroot'
    cases hroot'
    rfl
  exact hcarries.unique hcarries'

/-- A record of one field, whose absence is a fault, is read exactly from what carries a value for
it that can be read. -/
theorem readOnly_eq_ok_iff {α : Type} {field : RecordField α} (h : field.absence = .fault)
    {tree : Tree} {a : α} :
    readOnly field tree = .ok a ↔
      ∃ part, tree.Carries field.key part ∧ field.read part = .ok a := by
  rw [← Fields.read_single_iff h, readOnly, bind_eq_ok]
  constructor
  · rintro ⟨⟨b, _⟩, hread, hb⟩
    cases hb
    exact hread
  · intro hread
    exact ⟨(a, ()), hread, rfl⟩

/-- What is read under the key of the envelope is read from the part that carries it. -/
theorem decode_envelope_eq_ok_iff {α : Type} {read : Tree → Except Fault α} {bytes : Bytes}
    {a : α} :
    Json.decode (readOnly { key := "envelope", read := read }) bytes = .ok a ↔
      ∃ part, CarriesEnvelope bytes part ∧ read part = .ok a := by
  rw [decode_eq_ok_iff]
  constructor
  · rintro ⟨root, hroot, hread⟩
    obtain ⟨part, hcarries, hpart⟩ := (readOnly_eq_ok_iff rfl).mp hread
    exact ⟨part, ⟨root, hroot, hcarries⟩, hpart⟩
  · rintro ⟨part, ⟨root, hroot, hcarries⟩, hpart⟩
    exact ⟨root, hroot, (readOnly_eq_ok_iff rfl).mpr ⟨part, hcarries, hpart⟩⟩

/-- The envelope that a message seems to carry is what its part for the envelope says. -/
theorem probeEnvelope_eq_some_iff {bytes : Bytes} {envelope : Envelope} :
    probeEnvelope bytes = some envelope ↔
      ∃ part, CarriesEnvelope bytes part ∧ Envelope.read part = .ok envelope := by
  rw [← decode_envelope_eq_ok_iff, probeEnvelope]
  cases Json.decode (readOnly { key := "envelope", read := Envelope.read }) bytes <;>
    simp [Except.toOption]

/-- The id that a message seems to carry is that of its part for the envelope, if it has one. -/
theorem probeEventId_eq_some_iff {bytes : Bytes} {id : String} :
    probeEventId bytes = some id ↔
      id ≠ "" ∧ ∃ part, CarriesEnvelope bytes part ∧ Envelope.readId part = .ok id := by
  rw [← decode_envelope_eq_ok_iff, probeEventId]
  cases Json.decode (readOnly { key := "envelope", read := Envelope.readId }) bytes with
  | error fault => simp
  | ok found =>
    simp only [String.isEmpty_iff, Except.ok.injEq]
    by_cases hempty : found = ""
    · rw [if_pos hempty]
      exact ⟨nofun, fun ⟨hid, heq⟩ => absurd (heq ▸ hempty) hid⟩
    · rw [if_neg hempty]
      constructor
      · rintro ⟨⟩
        exact ⟨hempty, rfl⟩
      · rintro ⟨-, rfl⟩
        rfl

/-! ## The two readers of an envelope -/

/-- An envelope is read from an object or from an array, which are whole. -/
theorem Envelope.form_of_read {part : Tree} {envelope : Envelope}
    (h : Envelope.read part = .ok envelope) :
    (∃ members, part = .object members true) ∨ ∃ items, part = .array items true := by
  obtain ⟨row, hrow, -⟩ := bind_eq_ok.mp h
  cases part with
  | object members whole =>
    have hwhole := ((Fields.read_object_iff (by decide)).mp hrow).1
    exact .inl ⟨members, by rw [hwhole]⟩
  | array items whole =>
    have hwhole := (Fields.read_array_iff.mp hrow).1
    exact .inr ⟨items, by rw [hwhole]⟩
  | _ => cases hrow

/-- Both readers of an object read the same id. -/
theorem Envelope.readId_of_read_object {members : List Member} {whole : Bool} {envelope : Envelope}
    (h : Envelope.read (.object members whole) = .ok envelope) :
    Envelope.readId (.object members whole) = .ok envelope.eventId := by
  obtain ⟨⟨eventId, row⟩, hrow, h⟩ := bind_eq_ok.mp h
  cases h
  obtain ⟨rfl, hlegible, hid, -⟩ := (Fields.read_object_iff (by decide)).mp hrow
  obtain ⟨part, hpart, hread⟩ := (RecordField.finds_iff_of_fault rfl).mp hid
  exact (readOnly_eq_ok_iff rfl).mpr ⟨part, .member hlegible hpart, hread⟩

/-- The reader of the id reads no array that is an envelope. -/
theorem Envelope.readId_array_of_read {items : List Tree} {whole : Bool} {envelope : Envelope}
    (h : Envelope.read (.array items whole) = .ok envelope) (id : String) :
    Envelope.readId (.array items whole) ≠ .ok id := by
  intro hid
  obtain ⟨part, hcarries, -⟩ := (readOnly_eq_ok_iff rfl).mp hid
  cases hcarries
  -- An array of one item has nothing for the second field of an envelope.
  obtain ⟨⟨eventId, row⟩, hrow, -⟩ := bind_eq_ok.mp h
  cases (Fields.ofItems_cons_iff.mp (Fields.read_array_iff.mp hrow).2).2

/-- A message that seems to carry an envelope with an id seems to carry this id too if the envelope
is an object, and no id if it is an array. -/
theorem probeEventId_of_probeEnvelope {bytes : Bytes} {envelope : Envelope}
    (h : probeEnvelope bytes = some envelope) (hid : envelope.eventId ≠ "") :
    ∃ part, CarriesEnvelope bytes part ∧ Envelope.read part = .ok envelope ∧
      (((∃ members, part = .object members true) ∧
          probeEventId bytes = some envelope.eventId) ∨
        ((∃ items, part = .array items true) ∧ probeEventId bytes = none)) := by
  obtain ⟨part, hcarries, hread⟩ := probeEnvelope_eq_some_iff.mp h
  refine ⟨part, hcarries, hread, ?_⟩
  rcases Envelope.form_of_read hread with ⟨members, rfl⟩ | ⟨items, rfl⟩
  · exact .inl ⟨⟨members, rfl⟩, probeEventId_eq_some_iff.mpr
      ⟨hid, _, hcarries, Envelope.readId_of_read_object hread⟩⟩
  · refine .inr ⟨⟨items, rfl⟩, Option.eq_none_iff_forall_ne_some.mpr fun id hprobe => ?_⟩
    obtain ⟨-, other, hother, hreadId⟩ := probeEventId_eq_some_iff.mp hprobe
    obtain rfl := hcarries.unique hother
    exact Envelope.readId_array_of_read hread id hreadId

/-! ## The dead letter of a message that is no event -/

section Stray

variable {σ : Type} {around : Surroundings σ} {bytes : Bytes} {source : Coordinates}
  {fault : Fault} {s : Shared}

/-- A message that is no event and whose id is not live has one request: a dead letter under the
id that it seems to carry, or else under its place, is handed to the sink. The same id is marked on
the guard. -/
theorem process_of_stray (around : Surroundings σ) (hstray : RawEvent.decode bytes = .error fault)
    (hlive : s.guard.isLive s.instant ((probeEventId bytes).getD source.text) = false) (x : σ) :
    ∃ letter report s' y,
      process around.recorded (.ofMessage bytes source) s (x, []) =
        (report.map fun () => .published (.deadLetter letter), s', y,
          [.publish (.deadLetter letter) report]) ∧
      letter.eventId = (probeEventId bytes).getD source.text ∧
      letter.envelope = probeEnvelope bytes ∧
      s'.guard = (s.guard.forget letter.eventId).reported s.instant letter.eventId report := by
  have hintake : Intake.ofMessage bytes source = .stray ((probeEventId bytes).getD source.text)
      (probeEnvelope bytes) source fault.message := by
    rw [Intake.ofMessage, hstray]
  rw [hintake]
  let setting : Setting := ⟨around.backfills, fun _ _ => False⟩
  let d := setting.delivery (.stray ((probeEventId bytes).getD source.text)
    (probeEnvelope bytes) source fault.message) s.instant
  obtain ⟨hcleared, hforgotten⟩ := Shared.Cleared.of_check (d := d) hlive
  obtain ⟨hgoesOn, -, hinstant⟩ := Delivery.check_of_not_live (d := d) hlive
  rcases hcheck : d.check s with ⟨course, s₁⟩
  rw [hcheck] at hcleared hforgotten hgoesOn hinstant
  have htakes := setting.takes_of_check hcheck
  cases course with
  | drop => exact absurd rfl hgoesOn
  | ask event quote since =>
    obtain ⟨_, hevent⟩ := htakes.isEvent
    cases hevent
  | settle verdict =>
    obtain ⟨output, report, s', y, houtput, hemit, -, -, hguard⟩ :=
      d.emit_of_not_live hcleared.not_live around verdict x []
    cases htakes with
    | stray =>
      let letter := DeadLetter.route (.schema ("message is not a raw event: " ++ fault.message))
        d.intake.context s₁.wall (Uuid.make s₁.wall.toInt s₁.serial)
      obtain rfl : output = .deadLetter letter := houtput
      refine ⟨letter, report, s', y, ?_, rfl, rfl, ?_⟩
      · exact (Delivery.run_of_settle hcheck around.recorded (x, [])).trans hemit
      · rw [hguard, hforgotten, hinstant]
        rfl

/-- If the dead letter of a message that is no event carries an envelope with an id, then the part
for the envelope was read as this envelope, and it is an object or an array. If it is an object, the
dead letter goes under the id of the envelope; if it is an array, under the place of the message.
What it goes under is what is marked on the guard. -/
theorem deadLetter_of_envelope {x y : σ} {s' : Shared} {result : Except PublishError Outcome}
    {requests : List Request} {letter : DeadLetter} {report : Except PublishError Unit}
    {envelope : Envelope} (hstray : RawEvent.decode bytes = .error fault)
    (hprocess : process around.recorded (.ofMessage bytes source) s (x, []) =
      (result, s', y, requests))
    (hletter : .publish (.deadLetter letter) report ∈ requests)
    (henvelope : letter.envelope = some envelope) (hid : envelope.eventId ≠ "") :
    (∃ part, CarriesEnvelope bytes part ∧ Envelope.read part = .ok envelope ∧
      (((∃ members, part = .object members true) ∧ letter.eventId = envelope.eventId) ∨
        ((∃ items, part = .array items true) ∧ letter.eventId = source.text))) ∧
      s'.guard = (s.guard.forget letter.eventId).reported s.instant letter.eventId report := by
  have hintake : (Intake.ofMessage bytes source).id = (probeEventId bytes).getD source.text := by
    rw [Intake.ofMessage, hstray]
    rfl
  cases hlive : s.guard.isLive s.instant ((probeEventId bytes).getD source.text) with
  | true =>
    obtain ⟨s'', hduplicate⟩ := process_of_live around.recorded (x, []) (hintake ▸ hlive)
    cases hduplicate.symm.trans hprocess
    cases hletter
  | false =>
    obtain ⟨letter', report', s'', y', hmade, heventId, hcarried, hguard⟩ :=
      process_of_stray around hstray hlive x
    cases hmade.symm.trans hprocess
    obtain ⟨rfl, rfl⟩ : letter = letter' ∧ report = report' := by
      cases List.mem_singleton.mp hletter
      exact ⟨rfl, rfl⟩
    refine ⟨?_, hguard⟩
    obtain ⟨part, hcarries, hread, hforms⟩ :=
      probeEventId_of_probeEnvelope (hcarried.symm.trans henvelope) hid
    refine ⟨part, hcarries, hread, ?_⟩
    rcases hforms with ⟨hobject, hprobe⟩ | ⟨harray, hprobe⟩
    · exact .inl ⟨hobject, by rw [heventId, hprobe, Option.getD_some]⟩
    · exact .inr ⟨harray, by rw [heventId, hprobe, Option.getD_none]⟩

end Stray

set_option maxRecDepth 2000 in
/-- A message without a payload. Its envelope is an object with a key of its own and the fields out
of order, and the dead letter goes under its id. -/
theorem deadLetter_of_envelope_object :
    let around : Surroundings Unit :=
      ⟨false, fun _ s x => (.ok none, s, x), fun _ x => (.ok (), x)⟩
    let bytes := utf8 ("[\x7b\"hop\":0,\"trace_id\":\"t\",\"event_id\":\"evt-1\"," ++
      "\"schema_version\":\"1\",\"tenant_id\":\"x\",\"producer\":\"p\"," ++
      "\"occurred_at\":1,\"ingested_at\":2\x7d]")
    let source : Coordinates := ⟨"in", 0, 7⟩
    let s : Shared := ⟨.new 10 2, 0, 0, 0, [], []⟩
    let envelope : Envelope := ⟨"evt-1", "t", "1", "x", "p", 1, 2⟩
    RawEvent.decode bytes = .error .unreadable ∧ envelope.eventId ≠ "" ∧ ∃ letter s',
      process around.recorded (.ofMessage bytes source) s ((), []) =
        (.ok (.published (.deadLetter letter)), s', (), [.publish (.deadLetter letter) (.ok ())]) ∧
      letter.envelope = some envelope ∧ letter.eventId = "evt-1" ∧
      (∃ part, CarriesEnvelope bytes part ∧ Envelope.read part = .ok envelope) ∧
      s'.guard = (s.guard.forget "evt-1").mark 0 "evt-1" := by
  intro around bytes source s envelope
  have hstray : RawEvent.decode bytes = .error .unreadable := rfl
  obtain ⟨letter, s', hprocess, henvelope, hid⟩ : ∃ letter s',
      process around.recorded (.ofMessage bytes source) s ((), []) =
        (.ok (.published (.deadLetter letter)), s', (), [.publish (.deadLetter letter) (.ok ())]) ∧
      letter.envelope = some envelope ∧ letter.eventId = "evt-1" :=
    ⟨_, _, rfl, rfl, rfl⟩
  obtain ⟨⟨part, hcarries, hread, -⟩, hguard⟩ :=
    deadLetter_of_envelope hstray hprocess List.mem_cons_self henvelope (by decide)
  rw [hid] at hguard
  exact ⟨hstray, by decide, letter, s', hprocess, henvelope, hid, ⟨part, hcarries, hread⟩, hguard⟩

/-- The envelope of the same message as an array. The dead letter carries the envelope with its id,
but it goes under the place of the message, and so does the mark on the guard. -/
theorem envelope_id_not_used :
    let around : Surroundings Unit :=
      ⟨false, fun _ s x => (.ok none, s, x), fun _ x => (.ok (), x)⟩
    let bytes := utf8
      "\x7b\"envelope\":[\"evt-1\",\"t\",\"1\",\"x\",\"p\",1,2],\"payload\":12\x7d"
    let source : Coordinates := ⟨"in", 0, 7⟩
    let s : Shared := ⟨.new 10 2, 0, 0, 0, [], []⟩
    RawEvent.decode bytes = .error .unreadable ∧ ∃ letter s',
      process around.recorded (.ofMessage bytes source) s ((), []) =
        (.ok (.published (.deadLetter letter)), s', (), [.publish (.deadLetter letter) (.ok ())]) ∧
      letter.envelope = some ⟨"evt-1", "t", "1", "x", "p", 1, 2⟩ ∧
      letter.eventId = "in:0:7" ∧ s'.guard.entries = [("in:0:7", 0)] :=
  ⟨rfl, _, _, rfl, rfl, rfl, rfl⟩

end MarketFeed
