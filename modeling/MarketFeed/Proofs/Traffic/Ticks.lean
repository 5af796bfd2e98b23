import MarketFeed.Proofs.Pipeline.Quote
import MarketFeed.Proofs.Traffic.Dialogue

/-!
# Where the values of a tick come from

No value of a tick is made up. Whatever the bytes of the messages, the replies of the store and
the answers of the sink, and in whatever order the deliveries take their steps, a tick that is
handed to the sink has the values of its event, and they are in range. Only the price may come
from elsewhere, and only if the blob carries none: then it is the one in the reply to the question
that this delivery asked for this very instrument, and the tick says so.
-/

namespace MarketFeed

/-- The later of two instants is not before the first. -/
theorem le_laterOf_left (a b : Int64) : a ≤ laterOf a b := by
  unfold laterOf
  split
  · assumption
  · exact Int64.le_refl a

/-- The later of two instants is not before the second. -/
theorem le_laterOf_right (a b : Int64) : b ≤ laterOf a b := by
  unfold laterOf
  split
  · exact Int64.le_refl b
  · exact (Int64.le_total a b).resolve_left ‹_›

/-- A last tick gives its own price, if that is usable. -/
theorem LatestTick.usablePrice?_eq_some {latest : LatestTick} {price : Float}
    (h : latest.usablePrice? = some price) : price = latest.price ∧ isUsablePrice price = true := by
  unfold usablePrice? at h
  split at h
  · obtain rfl := Option.some.inj h
    exact ⟨rfl, ‹_›⟩
  · cases h

/-- The codes of the issues of a tick. -/
def CanonicalTick.issueCodes (tick : CanonicalTick) : List String :=
  tick.payload.quality.issues.codes

/-- The values of a tick are those of its event and in range, it was made at an instant, and a
price that is not in the blob is the one that the store replied. -/
structure CanonicalTick.Faithful (event : RawEvent) (exchange? : Option Exchange) (now : Int64)
    (tick : CanonicalTick) : Prop where
  envelope : tick.envelope = event.envelope
  sourceSystem : tick.payload.sourceSystem = event.payload.sourceSystem
  sequence : tick.payload.sequence = event.payload.sequence
  market : tick.payload.market = event.payload.market
  symbol : tick.payload.symbol = event.payload.symbol
  symbolShown : Text.isBlank tick.payload.symbol = false
  instrumentId : tick.payload.instrumentId ≠ "" ∧ Text.Trimmed tick.payload.instrumentId
  price : Number.isFinite tick.payload.price = true ∧ 0 < tick.payload.price
  volume : ∀ volume, tick.payload.volume = some volume →
    Number.isFinite volume = true ∧ 0 ≤ volume
  normalizedAt : now ≤ tick.payload.normalizedAt ∧
    event.envelope.occurredAt ≤ tick.payload.normalizedAt
  issues : tick.issueCodes.Nodup
  missingVolume : tick.payload.volume = none → Issue.missingVolume.code ∈ tick.issueCodes
  fallback_iff : tick.payload.quality.status = .fallback ↔
    Issue.priceBackfilled.code ∈ tick.issueCodes
  backfilled_iff : Issue.priceBackfilled.code ∈ tick.issueCodes ↔ event.payload.CarriesNoPrice
  backfilled : event.payload.CarriesNoPrice →
    (∃ latest, exchange? = some ⟨tick.payload.instrumentId, .ok (some latest)⟩ ∧
      tick.payload.price = latest.price) ∧
    tick.issueCodes.getLast? = some Issue.priceBackfilled.code
  own : ¬ event.payload.CarriesNoPrice → event.payload.CarriesPrice tick.payload.price

/-- The tick of a valid quote, with a price that the quote comes to in view of the reply, is
faithful. -/
theorem Quote.Meets.faithful {setting : Setting} {quote : Quote} {event : RawEvent}
    {exchange? : Option Exchange} {price : Float} {backfilled : Bool} (hmeets : quote.Meets event)
    (h : (setting.given exchange?).Prices quote price backfilled) (now : Int64) :
    (quote.tick event price backfilled now).Faithful event exchange? now := by
  have hrange : isUsablePrice price = true := by
    cases h with
    | own hprice => exact (hmeets.price price hprice).1
    | lookedUp _ _ hprice => exact (LatestTick.usablePrice?_eq_some hprice).2
  have hfallback : Issue.priceBackfilled.code ∈ (quote.tickIssues backfilled).codes ↔
      event.payload.CarriesNoPrice := by
    -- The issues of the quote itself never say so, whatever its source claims.
    rw [Quote.mem_tickIssues]
    cases h with
    | own hprice =>
      have hcarries := (hmeets.price price hprice).2.not_carriesNoPrice
      simp [hmeets.notBackfilled, hcarries]
    | lookedUp hnone _ _ => simp [hmeets.noPrice hnone]
  refine
    { envelope := rfl
      sourceSystem := rfl
      sequence := rfl
      market := hmeets.market
      symbol := hmeets.symbol
      symbolShown := hmeets.symbolShown
      instrumentId := hmeets.instrumentId
      price := isUsablePrice_iff.mp hrange
      volume := fun volume hvolume => isUsableVolume_iff.mp (hmeets.volume volume hvolume)
      normalizedAt := ⟨le_laterOf_left .., le_laterOf_right ..⟩
      issues := (quote.tickIssues backfilled).nodup
      missingVolume := fun hnone => Quote.mem_tickIssues.mpr (.inl (hmeets.missingVolume hnone))
      fallback_iff := Quality.status_ofIssues _
      backfilled_iff := hfallback
      backfilled := ?fromStore
      own := ?fromBlob }
  case fromStore =>
    intro hcarries
    cases h with
    | own hprice => exact absurd hcarries (hmeets.price price hprice).2.not_carriesNoPrice
    | @lookedUp latest _ _ hreply hprice =>
      refine ⟨⟨latest, hreply, (LatestTick.usablePrice?_eq_some hprice).1⟩, ?_⟩
      exact IssueSet.getLast?_insert hmeets.notBackfilled
  case fromBlob =>
    intro hcarries
    cases h with
    | own hprice => exact (hmeets.price price hprice).2
    | lookedUp hnone _ _ => exact absurd (hmeets.noPrice hnone) hcarries

namespace Traffic

variable {ι : Type} [DecidableEq ι] {setting : Setting} {ttl maxEntries : Nat} {s : Shared}
  {moves : List (Move ι)} {t : Traffic ι} {heard : ι → Option Exchange} {i : ι}

/-- Every tick that is ever handed to the sink is faithful to the event that its message is, to the
reply that its delivery was given, and to the clock at the step that handed it over. -/
theorem Dialogue.ticks_faithful (h : Dialogue setting (.start ttl maxEntries s) moves t heard)
    {tick : CanonicalTick} (hhanded : t.handed? i = some (.tick tick)) :
    ∃ event source, t.intake? i = some (.event event source) ∧
      (∀ bytes place, Intake.ofMessage bytes place = .event event source →
        RawEvent.decode bytes = .ok event) ∧
      ∃ commit : LastCommit setting (.start ttl maxEntries s) moves t i event.id,
        tick.Faithful event (heard i) commit.source.shared.wall := by
  obtain ⟨intake, hintake, commit, started, verdict, hadmits, hrecord⟩ := h.handed hhanded
  cases verdict with
  | deadLetter error => cases hrecord
  | tick event quote price backfilled =>
    obtain ⟨⟨source, rfl⟩, hvalid, hprices⟩ := hadmits.of_tick
    obtain rfl : tick = quote.tick event price backfilled commit.source.shared.wall :=
      Output.tick.inj hrecord
    have hdecode (bytes : Bytes) (place : Coordinates)
        (hmessage : Intake.ofMessage bytes place = .event event source) :
        RawEvent.decode bytes = .ok event := by
      unfold Intake.ofMessage at hmessage
      split at hmessage
      · cases hmessage
        assumption
      · cases hmessage
    exact ⟨event, source, hintake, hdecode, commit,
      (Quote.meets_of_validate hvalid).faithful hprices _⟩

/-- The price of an event is null, and the store is asked: the tick has the price that it replied,
and says so in its last issue. -/
theorem Dialogue.ticks_faithful_of_null :
    ∃ (moves : List (Move Nat)) (t : Traffic Nat) (heard : Nat → Option Exchange)
      (tick : CanonicalTick),
      Dialogue ⟨true, fun _ _ => True⟩ (.start 10 2 ⟨.new 10 2, 0, 7, 0, [], []⟩) moves t heard ∧
        t.handed? 0 = some (.tick tick) ∧
        heard 0 = some ⟨"A.N", .ok (some ⟨1, none, none⟩)⟩ ∧
        tick.issueCodes = ["missing_volume", "price_backfilled"] ∧
        ∃ event, t.intake? 0 = some (.event event none) ∧ event.payload.blob = some "[null]" ∧
          ∃ now, tick.Faithful event (heard 0) now := by
  have husable : isUsablePrice 1 = true := by decide +kernel
  have hverdict (event : RawEvent) (quote : Quote) :
      lookupVerdict event quote (.ok (some ⟨1, none, none⟩)) = .tick event quote 1 true := by
    simp [lookupVerdict, lookupPrice, LatestTick.usablePrice?, husable]
  have h : Dialogue ⟨true, fun _ _ => True⟩ (.start 10 2 ⟨.new 10 2, 0, 7, 0, [], []⟩)
      ([] : List (Move Nat)) _ _ := .nil
  have h := h.snoc (.other (by simp) (.enter (i := 0) (.event ⟨⟨"e", "t", "1", "x", "p", 5, 5⟩,
    ⟨"feed", "N", "A", 1, 5, some "[null]", some "json", ⟨some " A.N ", 0, []⟩⟩⟩ none) rfl))
  have h := h.snoc (.other (by simp) (.advance (i := 0) rfl (.ask rfl)))
  have h := h.snoc (.reply (i := 0) rfl trivial
    (Prod.ext ((Setting.answer_verdict ..).trans (hverdict _ _)) rfl))
  have h := h.snoc (.other (by simp) (.advance (i := 0) rfl (.commit rfl)))
  refine ⟨_, _, _, _, h, rfl, rfl, rfl, ?_⟩
  obtain ⟨event, source, hintake, -, commit, hfaithful⟩ := h.ticks_faithful (i := 0) rfl
  obtain ⟨rfl, rfl⟩ := Intake.event.inj (Option.some.inj hintake)
  exact ⟨_, rfl, rfl, _, hfaithful⟩

end Traffic

end MarketFeed
