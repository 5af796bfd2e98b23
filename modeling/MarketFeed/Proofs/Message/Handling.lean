import MarketFeed.Partition.Worker
import MarketFeed.Proofs.Message.Requests
import MarketFeed.Proofs.Pipeline.Quote

/-!
# One message from end to end

What processing a message comes to is a table. A message whose id is live is dropped, and nothing
is asked for it. Any other message leads to one output, which is handed to the sink once: bytes
that are no event, events that break the contract and events without a price that can be had lead
to dead letters, and the others to ticks. The historical store is asked for the price of a quote
that has none, once, and never for anything else.
-/

namespace MarketFeed

/-! ## The table -/

/-- A dead letter tells what is wrong with a message, and all that is known of the message: what
the event says, or for bytes that are no event, what they seem to carry. -/
structure DeadLetter.Reports (letter : DeadLetter) (m : InputMessage) (code : ErrorCode)
    (issue : Issue) (detail : String) (now : Int64) : Prop where
  code : letter.code = code
  issue : letter.metadata.issue = issue.code
  detail : letter.metadata.detail = detail
  source : letter.metadata.source = some m.source
  failedAt : letter.failedAt = now
  ofEvent : ∀ event, RawEvent.decode m.payload = .ok event →
    letter.eventId = event.id ∧ letter.envelope = some event.envelope ∧
      letter.metadata.retryCount = event.payload.metadata.retryCount
  ofStray : ∀ fault, RawEvent.decode m.payload = .error fault →
    letter.eventId = (probeEventId m.payload).getD m.source.text ∧
      letter.envelope = probeEnvelope m.payload ∧ letter.metadata.retryCount = 0

/-- What a message comes to: the lookups that are made for it, and its output at an instant. -/
inductive InputMessage.ComesTo (m : InputMessage) (backfills : Bool) (now : Int64) :
    List Request → Output → Prop
  /-- The bytes are no event. -/
  | stray {fault : Json.Fault} {letter : DeadLetter}
      (hdecode : RawEvent.decode m.payload = .error fault)
      (hletter : letter.Reports m .validationError .schemaValidationFailed
        ("message is not a raw event: " ++ fault.message) now) :
      ComesTo m backfills now [] (.deadLetter letter)
  /-- The event breaks the contract. -/
  | refused {event : RawEvent} {error : ContractError} {letter : DeadLetter}
      (hdecode : RawEvent.decode m.payload = .ok event) (hrefused : validate event = .error error)
      (hletter : letter.Reports m error.code error.issue error.detail now) :
      ComesTo m backfills now [] (.deadLetter letter)
  /-- The quote has a price. -/
  | priced {event : RawEvent} {quote : Quote} {tick : CanonicalTick}
      (hdecode : RawEvent.decode m.payload = .ok event) (hquote : validate event = .ok quote)
      (hprice : quote.price ≠ none) (htick : normalize quote event false now = .ok tick)
      (hcanonical : tick.payload.quality.status = .canonical) :
      ComesTo m backfills now [] (.tick tick)
  /-- The quote has no price, and none is looked up. -/
  | unpriced {event : RawEvent} {quote : Quote} {letter : DeadLetter}
      (hdecode : RawEvent.decode m.payload = .ok event) (hquote : validate event = .ok quote)
      (hnone : quote.price = none) (hoff : backfills = false)
      (hletter : letter.Reports m .contractViolation .missingPrice
        "price is absent and backfill is disabled" now) :
      ComesTo m backfills now [] (.deadLetter letter)
  /-- The store has a usable price for the quote. -/
  | filled {event : RawEvent} {quote : Quote} {latest : LatestTick} {tick : CanonicalTick}
      (hdecode : RawEvent.decode m.payload = .ok event) (hquote : validate event = .ok quote)
      (hnone : quote.price = none) (hon : backfills = true)
      (husable : Number.isFinite latest.price = true ∧ 0 < latest.price)
      (htick : normalize { quote with price := some latest.price } event true now = .ok tick)
      (hfallback : tick.payload.quality.status = .fallback) :
      ComesTo m backfills now [.lookup quote.instrumentId (.ok (some latest))] (.tick tick)
  /-- The store has a price for the quote that cannot be used. -/
  | unusable {event : RawEvent} {quote : Quote} {latest : LatestTick} {letter : DeadLetter}
      (hdecode : RawEvent.decode m.payload = .ok event) (hquote : validate event = .ok quote)
      (hnone : quote.price = none) (hon : backfills = true)
      (hunusable : ¬ (Number.isFinite latest.price = true ∧ 0 < latest.price))
      (hletter : letter.Reports m .contractViolation .priceBackfillMiss
        ("latest price " ++ shown latest.price ++ " for " ++ quote.instrumentId ++
          " is not usable") now) :
      ComesTo m backfills now [.lookup quote.instrumentId (.ok (some latest))]
        (.deadLetter letter)
  /-- The store does not know the instrument. -/
  | unknown {event : RawEvent} {quote : Quote} {letter : DeadLetter}
      (hdecode : RawEvent.decode m.payload = .ok event) (hquote : validate event = .ok quote)
      (hnone : quote.price = none) (hon : backfills = true)
      (hletter : letter.Reports m .contractViolation .priceBackfillMiss
        ("no latest tick for " ++ quote.instrumentId) now) :
      ComesTo m backfills now [.lookup quote.instrumentId (.ok none)] (.deadLetter letter)
  /-- The store fails. -/
  | failed {event : RawEvent} {quote : Quote} {error : BackfillError} {letter : DeadLetter}
      (hdecode : RawEvent.decode m.payload = .ok event) (hquote : validate event = .ok quote)
      (hnone : quote.price = none) (hon : backfills = true)
      (hletter : letter.Reports m .contractViolation .priceBackfillFailed error.message now) :
      ComesTo m backfills now [.lookup quote.instrumentId (.error error)] (.deadLetter letter)

/-! ## The rows -/

/-- The dead letter for a breach of a message reports it. -/
theorem DeadLetter.reports_route (m : InputMessage) (error : ContractError) (now : Int64)
    (id : Uuid) :
    (DeadLetter.route error (Intake.ofMessage m.payload m.source).context now id).Reports m
      error.code error.issue error.detail now := by
  unfold Intake.ofMessage
  cases hdecode : RawEvent.decode m.payload with
  | ok event =>
    refine ⟨rfl, rfl, rfl, rfl, rfl, fun other hother => ?_, fun fault hfault => ?_⟩
    · obtain rfl := Except.ok.inj (hdecode.symm.trans hother)
      exact ⟨rfl, rfl, rfl⟩
    · cases hdecode.symm.trans hfault
  | error fault =>
    refine ⟨rfl, rfl, rfl, rfl, rfl, fun event hevent => ?_, fun _ _ => ⟨rfl, rfl, rfl⟩⟩
    cases hdecode.symm.trans hevent

/-- A message that is taken for an event is the event. -/
theorem Intake.decode_of_event {bytes : Bytes} {source : Coordinates} {event : RawEvent}
    {source? : Option Coordinates} (h : Intake.ofMessage bytes source = .event event source?) :
    RawEvent.decode bytes = .ok event := by
  unfold ofMessage at h
  split at h
  · cases h
    assumption
  · cases h

/-- A message that is not taken for an event is none. -/
theorem Intake.decode_of_stray {bytes : Bytes} {source source' : Coordinates} {id reason : String}
    {envelope : Option Envelope}
    (h : Intake.ofMessage bytes source = .stray id envelope source' reason) :
    ∃ fault, RawEvent.decode bytes = .error fault ∧ reason = fault.message := by
  unfold ofMessage at h
  split at h
  · cases h
  · cases h
    exact ⟨_, ‹_›, rfl⟩

/-- A tick with the price of its event is canonical. -/
theorem Quote.canonical_tick {quote : Quote} {event : RawEvent}
    (h : validate event = .ok quote) (price : Float) (now : Int64) :
    (quote.tick event price false now).payload.quality.status = .canonical := by
  have hown := (Quote.meets_of_validate h).notBackfilled
  rw [Quote.tick, Quality.ofIssues, if_neg (by simpa [tickIssues, IssueSet.contains] using hown)]

/-- A tick with a price that was looked up is a fallback. -/
theorem Quote.fallback_tick (quote : Quote) (event : RawEvent) (price : Float) (now : Int64) :
    (quote.tick event price true now).payload.quality.status = .fallback :=
  (Quality.status_ofIssues _).mpr (Quote.mem_tickIssues.mpr (.inr ⟨rfl, rfl⟩))

section Rows

variable {m : InputMessage} {backfills : Bool}

/-- The record of a verdict that needs no lookup is in the table. -/
theorem comesTo_of_admits {verdict : Verdict}
    (h : Setting.Admits ⟨backfills, fun _ _ => False⟩ (Intake.ofMessage m.payload m.source)
      verdict) (started : Instant) (s : Shared) :
    m.ComesTo backfills s.wall []
      (Delivery.record ⟨Intake.ofMessage m.payload m.source, backfills, started⟩ s verdict).1 := by
  generalize hintake : Intake.ofMessage m.payload m.source = intake at h
  cases h with
  | stray id envelope source reason =>
    obtain ⟨fault, hdecode, rfl⟩ := Intake.decode_of_stray hintake
    exact .stray hdecode (hintake ▸ DeadLetter.reports_route m _ s.wall _)
  | @breach event _ error hinvalid =>
    exact .refused (Intake.decode_of_event hintake) hinvalid
      (hintake ▸ DeadLetter.reports_route m error s.wall _)
  | @priced event _ quote price hvalid hprice =>
    exact .priced (Intake.decode_of_event hintake) hvalid (by simp [hprice])
      (by simp only [normalize, hprice]) (Quote.canonical_tick hvalid price s.wall)
  | unpriced hvalid hprice hoff =>
    exact .unpriced (Intake.decode_of_event hintake) hvalid hprice hoff
      (hintake ▸ DeadLetter.reports_route m _ s.wall _)
  | lookedUp _ _ _ hreply => exact hreply.elim

/-- The record of the verdict after a lookup is in the table. -/
theorem comesTo_of_asks {event : RawEvent} {quote : Quote}
    (h : Setting.Asks ⟨backfills, fun _ _ => False⟩ (Intake.ofMessage m.payload m.source) event
      quote) (reply : LookupAnswer) (started : Instant) (s : Shared) :
    m.ComesTo backfills s.wall [.lookup quote.instrumentId reply]
      (Delivery.record ⟨Intake.ofMessage m.payload m.source, backfills, started⟩ s
        (lookupVerdict event quote reply)).1 := by
  obtain ⟨⟨source, hintake⟩, hvalid, hnone, hon⟩ := h
  have hdecode := Intake.decode_of_event hintake
  cases reply with
  | error error => exact .failed hdecode hvalid hnone hon (DeadLetter.reports_route m _ s.wall _)
  | ok latest? =>
    cases latest? with
    | none => exact .unknown hdecode hvalid hnone hon (DeadLetter.reports_route m _ s.wall _)
    | some latest =>
      cases husable : isUsablePrice latest.price with
      | true =>
        have hverdict : lookupVerdict event quote (.ok (some latest)) =
            .tick event quote latest.price true := by
          simp [lookupVerdict, lookupPrice, LatestTick.usablePrice?, husable]
        rw [hverdict]
        exact .filled hdecode hvalid hnone hon (isUsablePrice_iff.mp husable) rfl
          (quote.fallback_tick event latest.price s.wall)
      | false =>
        have hverdict : lookupVerdict event quote (.ok (some latest)) =
            .deadLetter (.violation .priceBackfillMiss ("latest price " ++ shown latest.price ++
              " for " ++ quote.instrumentId ++ " is not usable")) := by
          simp [lookupVerdict, lookupPrice, LatestTick.usablePrice?, husable]
        rw [hverdict]
        refine .unusable hdecode hvalid hnone hon ?_ (DeadLetter.reports_route m _ s.wall _)
        rw [← isUsablePrice_iff, husable]
        exact Bool.false_ne_true

end Rows

/-! ## The whole table -/

/-- The output that a message is handled with is in the table, after the lookups that were made. -/
theorem Handled.comesTo {σ : Type} {around : Surroundings σ} {m : InputMessage}
    {asked : List Request} {verdict : Verdict} {s s₁ s' : Shared} {output : Output}
    {report : Except PublishError Unit}
    (h : Handled around (.ofMessage m.payload m.source) s asked verdict s₁ output report s') :
    m.ComesTo around.backfills s'.wall asked output := by
  rw [h.wall, h.output]
  cases h.decides with
  | settle hadmits => exact comesTo_of_admits hadmits s.instant s₁
  | ask hasks reply => exact comesTo_of_asks hasks reply s.instant s₁

/-- Processing a message while no other delivery moves. If its id is live, the message is a
duplicate, and nothing is asked of the surroundings. Otherwise one output is handed to the sink,
the lookups before it and the output are those of the table, and the report of the sink is the
result. -/
theorem message_handled {σ : Type} (around : Surroundings σ) (hundisturbed : around.Undisturbed)
    (m : InputMessage) (s : Shared) (x : σ) :
    ∃ result s' y requests,
      process around (.ofMessage m.payload m.source) s x = (result, s', y) ∧
      process around.recorded (.ofMessage m.payload m.source) s (x, []) =
        (result, s', y, requests) ∧
      (s.guard.isLive s.instant ((statedId? m.payload).getD m.source.text) = true →
        result = .ok .duplicate ∧ requests = []) ∧
      (s.guard.isLive s.instant ((statedId? m.payload).getD m.source.text) = false →
        ∃ asked output report, requests = asked ++ [.publish output report] ∧
          result = (report.map fun () => .published output) ∧
          m.ComesTo around.backfills s'.wall asked output) := by
  obtain ⟨requests, hrecorded⟩ :=
    process_records around (.ofMessage m.payload m.source) s x []
  rw [List.nil_append] at hrecorded
  rw [← Intake.id_ofMessage]
  rcases hplain : process around (.ofMessage m.payload m.source) s x with ⟨result, s', y⟩
  rw [hplain] at hrecorded
  refine ⟨result, s', y, requests, rfl, hrecorded, fun hlive => ?_, fun hlive => ?_⟩
  · obtain ⟨s'', hduplicate⟩ := process_of_live around.recorded (x, []) hlive
    cases hduplicate.symm.trans hrecorded
    exact ⟨rfl, rfl⟩
  · obtain ⟨asked, verdict, s₁, output, report, s'', y', hprocess, hhandled⟩ :=
      exists_handled hundisturbed hlive x
    cases hprocess.symm.trans hrecorded
    exact ⟨asked, output, report, rfl, rfl, hhandled.comesTo⟩

/-- An event comes in whose quote has no price, the store does not know the instrument, and the
sink fails. -/
theorem message_handled_of_unknown :
    let failure : PublishError := ⟨"dead_letters", "timed out"⟩
    let around : Surroundings Unit :=
      ⟨true, fun _ s x => (.ok none, s, x), fun _ x => (.error failure, x)⟩
    let m : InputMessage := ⟨⟨"in", 0, 7⟩, utf8 ("[[\"e\",\"t\",\"1\",\"x\",\"p\",0,0]," ++
      "[\"s\",\"m\",\"y\",1,0,\"[null,null,null,\\\"i\\\"]\",\"json\"]]")⟩
    let s : Shared := ⟨.new 10 2, 0, 0, 0, [], []⟩
    around.Undisturbed ∧
      s.guard.isLive s.instant ((statedId? m.payload).getD m.source.text) = false ∧
      ∃ s' letter,
        process around.recorded (.ofMessage m.payload m.source) s ((), []) =
          (.error failure, s', (),
            [.lookup "i" (.ok none), .publish (.deadLetter letter) (.error failure)]) ∧
        m.ComesTo true s'.wall [.lookup "i" (.ok none)] (.deadLetter letter) := by
  intro failure around m s
  have hundisturbed : around.Undisturbed := fun _ _ _ => .refl
  obtain ⟨result, s', _, requests, -, hrecorded, -, hnew⟩ :=
    message_handled around hundisturbed m s ()
  obtain ⟨asked, output, report, hrequests, -, hcomes⟩ := hnew rfl
  obtain ⟨letter, s'', hcomputed⟩ : ∃ letter s'',
      process around.recorded (.ofMessage m.payload m.source) s ((), []) =
        (.error failure, s'', (),
          [.lookup "i" (.ok none), .publish (.deadLetter letter) (.error failure)]) :=
    ⟨_, _, rfl⟩
  cases hrecorded.symm.trans hcomputed
  have hsplit : [Request.lookup "i" (.ok none)] ++
      [.publish (.deadLetter letter) (.error failure)] = asked ++ [.publish output report] :=
    hrequests
  obtain ⟨rfl, hlast⟩ := List.append_inj' hsplit rfl
  cases hlast
  exact ⟨hundisturbed, rfl, s', letter, hcomputed, hcomes⟩

end MarketFeed
