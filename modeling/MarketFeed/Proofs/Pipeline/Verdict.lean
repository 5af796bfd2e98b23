import MarketFeed.Proofs.Pipeline.Steps

/-!
# The verdicts a message can come to

What a message is taken for settles its verdict, up to the reply of the historical store. The
output made of a verdict carries the id of the message, whenever it is made; when and where
affects only the instants, the identifier of a dead letter and the place it was read from.
Hence a store that always replies alike leaves one output for each message, up to these.
-/

namespace MarketFeed

/-- What deliveries are set in: whether a missing price is looked up, and what the historical
store may reply for an instrument. -/
structure Setting where
  backfills : Bool
  replies : String → LookupAnswer → Prop

/-- The delivery of a message that began at an instant. -/
def Setting.delivery (setting : Setting) (intake : Intake) (started : Instant) : Delivery :=
  ⟨intake, setting.backfills, started⟩

/-- The verdict on an event whose price was looked up. -/
def lookupVerdict (event : RawEvent) (quote : Quote) (reply : LookupAnswer) : Verdict :=
  match lookupPrice quote.instrumentId reply with
  | .ok price => .tick event quote price true
  | .error error => .deadLetter error

/-- The message is an event with a valid quote that lacks a price, and prices are looked up. -/
structure Setting.Asks (setting : Setting) (intake : Intake) (event : RawEvent) (quote : Quote) :
    Prop where
  isEvent : ∃ source, intake = .event event source
  valid : validate event = .ok quote
  noPrice : quote.price = none
  backfills : setting.backfills = true

/-- The verdicts that a message can come to. -/
inductive Setting.Admits (setting : Setting) : Intake → Verdict → Prop
  | stray (id : String) (envelope : Option Envelope) (source : Coordinates) (reason : String) :
      Admits setting (.stray id envelope source reason)
        (.deadLetter (.schema ("message is not a raw event: " ++ reason)))
  | breach {event : RawEvent} {source : Option Coordinates} {error : ContractError}
      (hinvalid : validate event = .error error) :
      Admits setting (.event event source) (.deadLetter error)
  | priced {event : RawEvent} {source : Option Coordinates} {quote : Quote} {price : Float}
      (hvalid : validate event = .ok quote) (hprice : quote.price = some price) :
      Admits setting (.event event source) (.tick event quote price false)
  | unpriced {event : RawEvent} {source : Option Coordinates} {quote : Quote}
      (hvalid : validate event = .ok quote) (hprice : quote.price = none)
      (hoff : setting.backfills = false) :
      Admits setting (.event event source)
        (.deadLetter (.violation .missingPrice "price is absent and backfill is disabled"))
  | lookedUp {event : RawEvent} {source : Option Coordinates} {quote : Quote}
      {reply : LookupAnswer} (hvalid : validate event = .ok quote) (hprice : quote.price = none)
      (hon : setting.backfills = true) (hreply : setting.replies quote.instrumentId reply) :
      Admits setting (.event event source) (lookupVerdict event quote reply)

namespace Setting

variable {setting : Setting} {intake : Intake} {started : Instant} {s : Shared}

/-! ## The steps of a delivery -/

/-- A course that a message can take: the verdict is one it admits, or the question is one it
asks. -/
def Takes (setting : Setting) (intake : Intake) : Delivery.Course → Prop
  | .drop => True
  | .ask event quote _ => setting.Asks intake event quote
  | .settle verdict => setting.Admits intake verdict

/-- Assessing an event leads to a course that it can take. -/
theorem takes_assess (event : RawEvent) (source : Option Coordinates) (s : Shared) :
    setting.Takes (.event event source)
      ((setting.delivery (.event event source) started).assess event s).1 := by
  unfold Delivery.assess
  dsimp only
  split
  · exact .breach ‹_›
  · split
    · exact .priced ‹_› ‹_›
    · split
      · exact ⟨⟨source, rfl⟩, ‹_›, ‹_›, ‹_›⟩
      · exact .unpriced ‹_› ‹_› (Bool.eq_false_iff.mpr ‹_›)

/-- A check leads to a course that the message can take. -/
theorem takes_of_check {course : Delivery.Course} {s' : Shared}
    (h : (setting.delivery intake started).check s = (course, s')) :
    setting.Takes intake course := by
  obtain rfl : ((setting.delivery intake started).check s).1 = course := by rw [h]
  unfold Delivery.check
  cases intake with
  | stray id envelope source reason =>
    simp only [delivery]
    split
    · trivial
    · exact .stray id envelope source reason
  | event event source =>
    simp only [delivery]
    split
    · trivial
    · exact takes_assess event source _

/-- A verdict that needs no reply is admitted whatever the store replies. -/
theorem admits_of_settle {verdict : Verdict} {s' : Shared}
    (h : (setting.delivery intake started).check s = (.settle verdict, s'))
    (replies : String → LookupAnswer → Prop) :
    Admits ⟨setting.backfills, replies⟩ intake verdict := by
  have hcheck : (delivery ⟨setting.backfills, replies⟩ intake started).check s =
    (.settle verdict, s') := h
  exact takes_of_check hcheck

/-- The verdict after a reply depends on the reply only. -/
theorem answer_verdict (d : Delivery) (event : RawEvent) (quote : Quote) (since : Instant)
    (reply : LookupAnswer) (s : Shared) :
    (d.answer event quote since reply s).1 = lookupVerdict event quote reply := by
  unfold Delivery.answer lookupVerdict
  dsimp only
  split <;> simp_all

/-- A message asks for one price at most. -/
theorem Asks.unique {event event' : RawEvent} {quote quote' : Quote}
    (h : setting.Asks intake event quote) (h' : setting.Asks intake event' quote') :
    event = event' ∧ quote = quote' := by
  obtain ⟨source, rfl⟩ := h.isEvent
  obtain ⟨source', hintake⟩ := h'.isEvent
  cases hintake
  exact ⟨rfl, Except.ok.inj (h.valid.symm.trans h'.valid)⟩

/-- A message that asks the store admits the verdict after each reply it may get. -/
theorem Asks.admits {event : RawEvent} {quote : Quote} (h : setting.Asks intake event quote)
    {reply : LookupAnswer} (hreply : setting.replies quote.instrumentId reply) :
    setting.Admits intake (lookupVerdict event quote reply) := by
  obtain ⟨source, rfl⟩ := h.isEvent
  exact .lookedUp h.valid h.noPrice h.backfills hreply

/-- A message admits no less when the store may reply more. -/
theorem Admits.mono {backfills : Bool} {replies replies' : String → LookupAnswer → Prop}
    {verdict : Verdict} (hle : ∀ id reply, replies id reply → replies' id reply)
    (h : Admits ⟨backfills, replies⟩ intake verdict) :
    Admits ⟨backfills, replies'⟩ intake verdict := by
  cases h with
  | stray id envelope source reason => exact .stray id envelope source reason
  | breach hinvalid => exact .breach hinvalid
  | priced hvalid hprice => exact .priced hvalid hprice
  | unpriced hvalid hprice hoff => exact .unpriced hvalid hprice hoff
  | lookedUp hvalid hprice hon hreply => exact .lookedUp hvalid hprice hon (hle _ _ hreply)

end Setting

/-! ## Outputs -/

/-- The id of the event that an output is about. -/
def Output.eventId : Output → String
  | tick t => t.envelope.eventId
  | deadLetter letter => letter.eventId

/-- An output without what depends on when and where it was made: the instants, the identifier
of a dead letter and the place it was read from. -/
def Output.bare : Output → Output
  | tick t => tick { t with payload := { t.payload with normalizedAt := 0 } }
  | deadLetter letter =>
    deadLetter { letter with
      id := "", failedAt := 0, metadata := { letter.metadata with source := none } }

/-- The bare output is about the same event. -/
@[simp] theorem Output.eventId_bare (output : Output) : output.bare.eventId = output.eventId := by
  cases output <;> rfl

/-- The outputs that a message can come to: the records of the verdicts it admits. -/
def Setting.Emits (setting : Setting) (intake : Intake) (output : Output) : Prop :=
  ∃ started s verdict, setting.Admits intake verdict ∧
    output = ((setting.delivery intake started).record s verdict).1

/-- A lookup that gave a price was answered with a last tick whose price is usable. -/
theorem of_lookupPrice {instrumentId : String} {reply : LookupAnswer} {price : Float}
    (h : lookupPrice instrumentId reply = .ok price) :
    ∃ latest, reply = .ok (some latest) ∧ latest.usablePrice? = some price := by
  unfold lookupPrice at h
  split at h
  · split at h
    · obtain rfl := Except.ok.inj h
      exact ⟨_, rfl, ‹_›⟩
    · cases h
  · cases h
  · cases h

/-- The prices that a quote can come to, and whether they were looked up: its own, or one that the
store may reply for its instrument. -/
inductive Setting.Prices (setting : Setting) (quote : Quote) : Float → Bool → Prop
  | own {price : Float} (h : quote.price = some price) : Prices setting quote price false
  | lookedUp {latest : LatestTick} {price : Float} (hnone : quote.price = none)
      (hreply : setting.replies quote.instrumentId (.ok (some latest)))
      (hprice : latest.usablePrice? = some price) : Prices setting quote price true

/-- A message that comes to a tick is an event with a valid quote, and its price is one that the
quote can come to. -/
theorem Setting.Admits.of_tick {setting : Setting} {intake : Intake} {event : RawEvent}
    {quote : Quote} {price : Float} {backfilled : Bool}
    (h : setting.Admits intake (.tick event quote price backfilled)) :
    (∃ source, intake = .event event source) ∧ validate event = .ok quote ∧
      setting.Prices quote price backfilled := by
  generalize hverdict : Verdict.tick event quote price backfilled = verdict at h
  cases h with
  | stray => cases hverdict
  | breach => cases hverdict
  | priced hvalid hprice =>
    cases hverdict
    exact ⟨⟨_, rfl⟩, hvalid, .own hprice⟩
  | unpriced => cases hverdict
  | lookedUp hvalid hnone hon hreply =>
    unfold lookupVerdict at hverdict
    split at hverdict
    · rename_i price' hfound
      cases hverdict
      obtain ⟨latest, rfl, husable⟩ := of_lookupPrice hfound
      exact ⟨⟨_, rfl⟩, hvalid, .lookedUp hnone hreply husable⟩
    · cases hverdict

/-- What a message comes to carries its id. -/
theorem Setting.Emits.eventId {setting : Setting} {intake : Intake} {output : Output}
    (h : setting.Emits intake output) : output.eventId = intake.id := by
  obtain ⟨started, s, verdict, hadmits, rfl⟩ := h
  cases verdict with
  | tick event quote price backfilled =>
    obtain ⟨⟨source, rfl⟩, -⟩ := hadmits.of_tick
    rfl
  | deadLetter error => cases intake <;> rfl

/-! ## One message read at several places -/

/-- Two messages differ in nothing but the place they were read from. -/
inductive Intake.Alike : Intake → Intake → Prop
  | event (event : RawEvent) (source source' : Option Coordinates) :
      Alike (.event event source) (.event event source')
  | stray (id : String) (envelope : Option Envelope) (source source' : Coordinates)
      (reason : String) :
      Alike (.stray id envelope source reason) (.stray id envelope source' reason)

/-- A message is like itself. -/
theorem Intake.Alike.refl (intake : Intake) : intake.Alike intake := by
  cases intake with
  | event event source => exact .event event source source
  | stray id envelope source reason => exact .stray id envelope source source reason

/-- Messages that differ in their places only have one verdict, if the store always replies
alike. -/
theorem Setting.Admits.unique {backfills : Bool} {answer : String → LookupAnswer}
    {intake intake' : Intake} {verdict verdict' : Verdict} (halike : intake.Alike intake')
    (h : Setting.Admits ⟨backfills, fun id reply => reply = answer id⟩ intake verdict)
    (h' : Setting.Admits ⟨backfills, fun id reply => reply = answer id⟩ intake' verdict') :
    verdict = verdict' := by
  cases halike with
  | stray => cases h; cases h'; rfl
  | event event source source' => cases h <;> cases h' <;> simp_all

/-- Messages that differ in their places only leave the same bare output, if the store always
replies alike. -/
theorem Setting.Emits.bare_unique {backfills : Bool} {answer : String → LookupAnswer}
    {intake intake' : Intake} {output output' : Output} (halike : intake.Alike intake')
    (h : Setting.Emits ⟨backfills, fun id reply => reply = answer id⟩ intake output)
    (h' : Setting.Emits ⟨backfills, fun id reply => reply = answer id⟩ intake' output') :
    output.bare = output'.bare := by
  obtain ⟨started, s, verdict, hadmits, rfl⟩ := h
  obtain ⟨started', s', verdict', hadmits', rfl⟩ := h'
  obtain rfl := hadmits.unique halike hadmits'
  cases verdict with
  | tick event quote price backfilled => simp [Delivery.record, Output.bare, Quote.tick]
  | deadLetter error =>
    cases halike <;>
      simp [Delivery.record, Output.bare, DeadLetter.route, Setting.delivery, Intake.context]

/-- The id that the bytes of a message state: that of the event they are, or the one they seem
to carry. -/
def statedId? (bytes : Bytes) : Option String :=
  match RawEvent.decode bytes with
  | .ok event => some event.id
  | .error _ => probeEventId bytes

/-- The id of a message is the one its bytes state, or the text of its place. -/
theorem Intake.id_ofMessage (bytes : Bytes) (source : Coordinates) :
    (Intake.ofMessage bytes source).id = (statedId? bytes).getD source.text := by
  unfold Intake.ofMessage statedId?
  cases RawEvent.decode bytes <;> rfl

/-- A message whose bytes state an id goes under it, wherever it was read from. -/
theorem ofMessage_id {bytes : Bytes} {id : String} (h : statedId? bytes = some id)
    (source : Coordinates) : (Intake.ofMessage bytes source).id = id := by
  rw [Intake.id_ofMessage, h, Option.getD_some]

/-- A message whose bytes state an id is taken for the same at all places. -/
theorem ofMessage_alike {bytes : Bytes} {id : String} (h : statedId? bytes = some id)
    (source source' : Coordinates) :
    (Intake.ofMessage bytes source).Alike (Intake.ofMessage bytes source') := by
  unfold statedId? at h
  cases hdecode : RawEvent.decode bytes with
  | ok event =>
    simp only [Intake.ofMessage, hdecode]
    exact .event ..
  | error fault =>
    simp only [hdecode] at h
    simp only [Intake.ofMessage, hdecode, h, Option.getD_some]
    exact .stray ..

end MarketFeed
