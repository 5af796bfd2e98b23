import MarketFeed.Backfill.Store
import MarketFeed.Proofs.Message.Handling

/-!
# A price from the store

A quote without a price is filled with the last price that the historical store knows. The store
is asked once, and whatever comes back, a reply of any status with any body, a part of one or
nothing, is of one of three kinds. It offers a usable price, it denies that there is one, or the
lookup has failed. Only the first leads to a tick, and the others to a dead letter each.

A tick takes nothing but its price from the reply.
-/

namespace MarketFeed

/-! ## The kinds of replies -/

/-- The reply offers a price: it is successful, and its whole body is a last tick whose price is
finite and positive. -/
def StoreReply.Offers (reply : StoreReply) (price : Float) : Prop :=
  ∃ body latest, reply = .reply 200 (some body) ∧ LatestTick.decode body = .ok latest ∧
    latest.price = price ∧ Number.isFinite price = true ∧ 0 < price

/-- The reply denies that there is a price: the store does not know the instrument, whatever
becomes of the body, or it knows a last tick whose price cannot be used. -/
inductive StoreReply.Denies : StoreReply → Prop
  | unknown (body : Option Bytes) : Denies (.reply 404 body)
  | unusable {body : Bytes} {latest : LatestTick} (hdecode : LatestTick.decode body = .ok latest)
      (hunusable : ¬ (Number.isFinite latest.price = true ∧ 0 < latest.price)) :
      Denies (.reply 200 (some body))

namespace StoreReply

variable {reply : StoreReply}

/-- A reply that offers a price does not deny it. -/
theorem Offers.not_denies {price : Float} (h : reply.Offers price) : ¬ reply.Denies := by
  obtain ⟨body, latest, rfl, hdecode, rfl, husable⟩ := h
  intro hdenies
  cases hdenies with
  | unusable hdecode' hunusable =>
    obtain rfl := Except.ok.inj (hdecode.symm.trans hdecode')
    exact hunusable husable

/-- A reply offers one price at most. -/
theorem Offers.unique {price price' : Float} (h : reply.Offers price) (h' : reply.Offers price') :
    price = price' := by
  obtain ⟨body, latest, rfl, hdecode, rfl, -⟩ := h
  obtain ⟨body', latest', hreply, hdecode', rfl, -⟩ := h'
  cases hreply
  rw [Except.ok.inj (hdecode.symm.trans hdecode')]

/-- What a reply gives for a quote: the price that it offers, a breach if it denies one, and
another breach in every other case. -/
inductive Gives (reply : StoreReply) : Except ContractError Float → Prop
  | offered {price : Float} (h : reply.Offers price) : Gives reply (.ok price)
  | denied (h : reply.Denies) (detail : String) :
      Gives reply (.error (.violation .priceBackfillMiss detail))
  | failed (hdenies : ¬ reply.Denies) (hoffers : ∀ price, ¬ reply.Offers price)
      (detail : String) : Gives reply (.error (.violation .priceBackfillFailed detail))

/-- A successful reply with a whole body gives what its body decodes as. -/
theorem gives_of_body (id : String) (body : Bytes) :
    (StoreReply.reply 200 (some body)).Gives
      (lookupPrice id (HistoricalStore.interpret id (.reply 200 (some body)))) := by
  rw [HistoricalStore.interpret]
  cases hdecode : LatestTick.decode body with
  | error fault =>
    refine .failed (fun hdenies => ?_) ?_ _
    · cases hdenies with
      | unusable hdecode' => cases hdecode.symm.trans hdecode'
    · rintro price ⟨body', latest, hreply, hdecode', -⟩
      cases hreply
      cases hdecode.symm.trans hdecode'
  | ok latest =>
    dsimp only [lookupPrice]
    rw [LatestTick.usablePrice?]
    cases husable : isUsablePrice latest.price with
    | true => exact .offered ⟨body, latest, rfl, hdecode, rfl, isUsablePrice_iff.mp husable⟩
    | false =>
      refine .denied (.unusable hdecode fun h => ?_) _
      exact Bool.noConfusion (husable.symm.trans (isUsablePrice_iff.mpr h))

/-- A reply fails if it has no whole body of success and does not tell that the instrument is
unknown. -/
theorem gives_of_error (hbody : ∀ body, reply ≠ .reply 200 (some body))
    (hunknown : ∀ body, reply ≠ .reply 404 body) (id : String) (error : BackfillError) :
    reply.Gives (lookupPrice id (.error error)) := by
  refine .failed (fun hdenies => ?_) ?_ error.message
  · cases hdenies with
    | unknown body => exact hunknown body rfl
    | unusable hdecode hunusable => exact hbody _ rfl
  · rintro price ⟨body, latest, hreply, -⟩
    exact hbody body hreply

/-- Whatever comes back for an instrument is of one of the three kinds. -/
theorem gives_interpret (id : String) (reply : StoreReply) :
    reply.Gives (lookupPrice id (HistoricalStore.interpret id reply)) := by
  unfold HistoricalStore.interpret
  split
  case h_1 => exact gives_of_error (by simp) (by simp) id _
  case h_2 => exact gives_of_error (by simp) (by simp) id _
  case h_3 body => exact gives_of_body id body
  case h_4 body => exact .denied (.unknown body) _
  case h_5 status body hnone hbody hunknown =>
    refine gives_of_error ?_ ?_ id _
    · rintro body' ⟨⟩
      exact hbody body' rfl rfl
    · rintro body' ⟨⟩
      exact hunknown rfl

end StoreReply

/-! ## One lookup over a network -/

/-- A network over which stores are asked. Time may pass until a reply is there or the wait is
over, but no delivery moves meanwhile. -/
structure Network (σ : Type) where
  get : Url → Shared → σ → StoreReply × Shared × σ
  quiet : ∀ url s x, Relation.ReflTransGen Ambient s (get url s x).2.1

variable {σ : Type}

/-- The surroundings in which prices are looked up at a store over a network. The requests are
recorded with what came back. -/
def HistoricalStore.around (store : HistoricalStore) (network : Network σ)
    (publish : Output → σ → Except PublishError Unit × σ) :
    Surroundings (σ × List (Url × StoreReply)) where
  backfills := true
  lookup id s x :=
    let (reply, s, y) := network.get (store.latestUrl id) s x.1
    (interpret id reply, s, y, x.2 ++ [(store.latestUrl id, reply)])
  publish output x :=
    let (report, y) := publish output x.1
    (report, y, x.2)

/-- An output is a dead letter about a breach of the contract. -/
def Output.Reports (output : Output) (issue : Issue) : Prop :=
  ∃ letter, output = .deadLetter letter ∧ letter.code = .contractViolation ∧
    letter.metadata.issue = issue.code

/-- A dead letter is about one issue only. -/
theorem Output.Reports.unique {output : Output} {issue issue' : Issue} (h : output.Reports issue)
    (h' : output.Reports issue') : issue.code = issue'.code := by
  obtain ⟨letter, rfl, -, hissue⟩ := h
  obtain ⟨letter', houtput, -, hissue'⟩ := h'
  cases houtput
  exact hissue.symm.trans hissue'

/-- The output that a reply leads to at an instant. -/
inductive StoreReply.LeadsTo (reply : StoreReply) (event : RawEvent) (quote : Quote)
    (now : Int64) : Output → Prop
  | offered {price : Float} (h : reply.Offers price) :
      LeadsTo reply event quote now (.tick (quote.tick event price true now))
  | denied (h : reply.Denies) {output : Output} (houtput : output.Reports .priceBackfillMiss) :
      LeadsTo reply event quote now output
  | failed (hdenies : ¬ reply.Denies) (hoffers : ∀ price, ¬ reply.Offers price)
      {output : Output} (houtput : output.Reports .priceBackfillFailed) :
      LeadsTo reply event quote now output

namespace StoreReply.LeadsTo

variable {reply : StoreReply} {event : RawEvent} {quote : Quote} {now : Int64} {output : Output}

/-- A tick is put out exactly for a price that is offered, and it has that price. -/
theorem tick_iff (h : reply.LeadsTo event quote now output) (tick : CanonicalTick) :
    output = .tick tick ↔ ∃ price, reply.Offers price ∧ tick = quote.tick event price true now := by
  cases h with
  | offered hoffers =>
    constructor
    · rintro ⟨⟩
      exact ⟨_, hoffers, rfl⟩
    · rintro ⟨price, hprice, rfl⟩
      rw [hoffers.unique hprice]
  | denied hdenies houtput =>
    obtain ⟨letter, rfl, -⟩ := houtput
    exact iff_of_false nofun fun ⟨price, hoffers, _⟩ => hoffers.not_denies hdenies
  | failed hdenies hoffers houtput =>
    obtain ⟨letter, rfl, -⟩ := houtput
    exact iff_of_false nofun fun ⟨price, hprice, _⟩ => hoffers price hprice

/-- A price is reported as missing exactly if it is denied. -/
theorem miss_iff (h : reply.LeadsTo event quote now output) :
    output.Reports .priceBackfillMiss ↔ reply.Denies := by
  cases h with
  | offered hoffers =>
    exact iff_of_false (fun ⟨_, houtput, _⟩ => nomatch houtput) hoffers.not_denies
  | denied hdenies houtput => exact iff_of_true houtput hdenies
  | failed hdenies hoffers houtput =>
    exact iff_of_false (fun hmiss => absurd (hmiss.unique houtput) (by decide)) hdenies

/-- A lookup is reported as failed exactly if a price is neither offered nor denied. -/
theorem failed_iff (h : reply.LeadsTo event quote now output) :
    output.Reports .priceBackfillFailed ↔ ¬ reply.Denies ∧ ∀ price, ¬ reply.Offers price := by
  cases h with
  | offered hoffers =>
    exact iff_of_false (fun ⟨_, houtput, _⟩ => nomatch houtput) fun ⟨_, hnone⟩ => hnone _ hoffers
  | denied hdenies houtput =>
    exact iff_of_false (fun hfailed => absurd (hfailed.unique houtput) (by decide))
      fun ⟨hnot, _⟩ => hnot hdenies
  | failed hdenies hoffers houtput => exact iff_of_true houtput ⟨hdenies, hoffers⟩

end StoreReply.LeadsTo

/-- The record of the verdict after a reply is the output that the reply leads to. -/
theorem StoreReply.leadsTo_record (reply : StoreReply) (event : RawEvent) (quote : Quote)
    (d : Delivery) (s : Shared) :
    reply.LeadsTo event quote s.wall (d.record s (lookupVerdict event quote
      (HistoricalStore.interpret quote.instrumentId reply))).1 := by
  have hgives := reply.gives_interpret quote.instrumentId
  unfold lookupVerdict
  generalize lookupPrice quote.instrumentId _ = given at hgives
  cases hgives with
  | offered h => exact .offered h
  | denied h detail => exact .denied h ⟨_, rfl, rfl, rfl⟩
  | failed hdenies hoffers detail => exact .failed hdenies hoffers ⟨_, rfl, rfl, rfl⟩

/-- An event that is not live and has a valid quote without a price leads to a question. -/
theorem Delivery.check_of_unpriced {d : Delivery} {event : RawEvent} {quote : Quote}
    {source : Option Coordinates} {s : Shared} (hintake : d.intake = .event event source)
    (hbackfills : d.backfills = true) (hlive : s.guard.isLive s.instant d.id = false)
    (hvalid : validate event = .ok quote) (hnone : quote.price = none) :
    ∃ since s', d.check s = (.ask event quote since, s') := by
  unfold check
  rw [hintake]
  dsimp only
  rw [Shared.seen_of_not_live (by exact hlive)]
  simp [assess, hvalid, hnone, hbackfills]

/-- The record of a verdict is brought to the sink if the id is not live, and the report of the
sink is the result. -/
theorem Delivery.emit_of_absent {d : Delivery} {s : Shared}
    (hlive : s.guard.isLive s.instant d.id = false) (around : Surroundings σ) (verdict : Verdict)
    (x : σ) :
    ∃ s', s'.wall = s.wall ∧ d.emit around verdict s x =
      ((around.publish (d.record s verdict).1 x).1.map fun () => .published (d.record s verdict).1,
        s', (around.publish (d.record s verdict).1 x).2) := by
  unfold emit
  rw [commit_of_not_live hlive]
  dsimp only
  rcases around.publish (d.record s verdict).1 x with ⟨error | ⟨⟩, y⟩
  · refine ⟨_, ?_, rfl⟩
    cases verdict <;> rfl
  · refine ⟨_, ?_, rfl⟩
    cases verdict <;> rfl

/-- An event that is not live and has a valid quote without a price leads to one request, and the
output for what came back is handed to the sink. -/
theorem process_around (store : HistoricalStore) (network : Network σ)
    (publish : Output → σ → Except PublishError Unit × σ) {event : RawEvent} {quote : Quote}
    (source : Option Coordinates) {s : Shared}
    (hlive : s.guard.isLive s.instant event.id = false) (hvalid : validate event = .ok quote)
    (hnone : quote.price = none) (x : σ) (before : List (Url × StoreReply)) :
    ∃ reply output s' y,
      (∃ s₁, reply = (network.get (store.latestUrl quote.instrumentId) s₁ x).1) ∧
      reply.LeadsTo event quote s'.wall output ∧
      process (store.around network publish) (.event event source) s (x, before) =
        ((publish output y).1.map fun () => .published output, s',
          ((publish output y).2, before ++ [(store.latestUrl quote.instrumentId, reply)])) := by
  let d : Delivery := ⟨.event event source, true, s.instant⟩
  obtain ⟨since, s₁, hcheck⟩ :=
    Delivery.check_of_unpriced (d := d) (s := s) rfl rfl hlive hvalid hnone
  have hcleared := (Shared.Cleared.of_check (d := d) hlive).1
  rw [hcheck] at hcleared
  have hrun := Delivery.run_of_ask hcheck (store.around network publish) (x, before)
  rcases hget : network.get (store.latestUrl quote.instrumentId) s₁ x with ⟨reply, s₂, y⟩
  have hlookup : (store.around network publish).lookup quote.instrumentId s₁ (x, before) =
      (HistoricalStore.interpret quote.instrumentId reply, s₂, y,
        before ++ [(store.latestUrl quote.instrumentId, reply)]) := by
    simp only [HistoricalStore.around, hget]
  rw [hlookup] at hrun
  dsimp only at hrun
  -- No delivery has moved meanwhile, so the id has no entry when its output is put out.
  have hquiet := network.quiet (store.latestUrl quote.instrumentId) s₁ x
  rw [hget] at hquiet
  obtain ⟨hguard, hinstant⟩ := Delivery.answer_frame
    (rfl : d.answer event quote since (HistoricalStore.interpret quote.instrumentId reply) s₂ =
      (_, _))
  have habsent := ((hcleared.ambients hquiet).of_eq hguard hinstant).not_live
  obtain ⟨s', hwall, hemit⟩ := Delivery.emit_of_absent habsent (store.around network publish)
    (lookupVerdict event quote (HistoricalStore.interpret quote.instrumentId reply))
    (y, before ++ [(store.latestUrl quote.instrumentId, reply)])
  refine ⟨reply, _, s', y, ⟨s₁, by rw [hget]⟩, ?_, hrun.trans hemit⟩
  rw [hwall]
  exact reply.leadsTo_record event quote d _

/-- A tick that is published for a quote without a price has a price that was looked up, and
nothing else that the quote and the time do not settle. -/
theorem tick_of_process_around {store : HistoricalStore} {network : Network σ}
    {publish : Output → σ → Except PublishError Unit × σ} {event : RawEvent} {quote : Quote}
    {source : Option Coordinates} (hvalid : validate event = .ok quote)
    (hnone : quote.price = none) {s s' : Shared} {x y : σ × List (Url × StoreReply)}
    {tick : CanonicalTick}
    (h : process (store.around network publish) (.event event source) s x =
      (.ok (.published (.tick tick)), s', y)) :
    ∃ price, tick = quote.tick event price true s'.wall := by
  cases hlive : s.guard.isLive s.instant event.id with
  | true =>
    have hlive' : s.guard.isLive s.instant (Intake.event event source).id = true := hlive
    obtain ⟨s'', hduplicate⟩ := process_of_live (store.around network publish) x hlive'
    cases hduplicate.symm.trans h
  | false =>
    obtain ⟨reply, output, s'', y', -, hleads, hprocess⟩ :=
      process_around store network publish source hlive hvalid hnone x.1 x.2
    rcases hpublish : publish output y' with ⟨error | ⟨⟩, z⟩
    · rw [hpublish] at hprocess
      cases hprocess.symm.trans h
    · rw [hpublish] at hprocess
      cases hprocess.symm.trans h
      obtain ⟨price, -, htick⟩ := (hleads.tick_iff tick).mp rfl
      exact ⟨price, htick⟩

/-- An event comes in that is not live, and whose valid quote has no price. The store is asked once,
whatever it does. A tick goes out exactly if it offers a price, a dead letter about a missing price
exactly if it denies one, and a dead letter about a failed lookup in every other case. And a tick
that any other reply leads to at the same time differs in its price at most. -/
theorem lookup_fails_closed (store : HistoricalStore) (network : Network σ)
    {publish : Output → σ → Except PublishError Unit × σ}
    (haccepts : ∀ output x, (publish output x).1 = .ok ()) {event : RawEvent} {quote : Quote}
    (source : Option Coordinates) {s : Shared}
    (hlive : s.guard.isLive s.instant event.id = false) (hvalid : validate event = .ok quote)
    (hnone : quote.price = none) (x : σ) :
    ∃ reply output s' y,
      (∃ s₁, reply = (network.get (store.latestUrl quote.instrumentId) s₁ x).1) ∧
      process (store.around network publish) (.event event source) s (x, []) =
        (.ok (.published output), s', y, [(store.latestUrl quote.instrumentId, reply)]) ∧
      ((∃ tick, output = .tick tick) ↔ ∃ price, reply.Offers price) ∧
      (output.Reports .priceBackfillMiss ↔ reply.Denies) ∧
      (output.Reports .priceBackfillFailed ↔
        ¬ reply.Denies ∧ ∀ price, ¬ reply.Offers price) ∧
      ∀ tick, output = .tick tick →
        tick.payload.quality.status = .fallback ∧ reply.Offers tick.payload.price ∧
        ∀ (τ : Type) (store' : HistoricalStore) (network' : Network τ)
          (publish' : Output → τ → Except PublishError Unit × τ) (source' : Option Coordinates)
          (t t' : Shared) (x' : τ × List (Url × StoreReply)) (y' : τ × List (Url × StoreReply))
          (tick' : CanonicalTick),
          process (store'.around network' publish') (.event event source') t x' =
            (.ok (.published (.tick tick')), t', y') → t'.wall = s'.wall →
          tick' = { tick with payload := { tick.payload with price := tick'.payload.price } } := by
  obtain ⟨reply, output, s', y, hreply, hleads, hprocess⟩ :=
    process_around store network publish source hlive hvalid hnone x []
  rw [haccepts] at hprocess
  refine ⟨reply, output, s', _, hreply, hprocess, ⟨?offered, ?put⟩, hleads.miss_iff,
    hleads.failed_iff, ?alike⟩
  case offered =>
    rintro ⟨tick, htick⟩
    obtain ⟨price, hoffers, -⟩ := (hleads.tick_iff tick).mp htick
    exact ⟨price, hoffers⟩
  case put =>
    rintro ⟨price, hoffers⟩
    exact ⟨_, (hleads.tick_iff _).mpr ⟨price, hoffers, rfl⟩⟩
  case alike =>
    intro tick htick
    obtain ⟨price, hoffers, rfl⟩ := (hleads.tick_iff tick).mp htick
    refine ⟨quote.fallback_tick event price s'.wall, hoffers, ?_⟩
    intro τ store' network' publish' source' t t' x' y' tick' hother hwall
    obtain ⟨price', rfl⟩ := tick_of_process_around hvalid hnone hother
    rw [hwall]
    rfl

/-- An event comes in whose quote has no price, and the store offers one. -/
theorem lookup_fails_closed_of_offer :
    let reply : StoreReply := .reply 200 (some (utf8 "\x7b\"price\":2.5\x7d"))
    let network : Network Unit := ⟨fun _ s x => (reply, s, x), fun _ _ _ => .refl⟩
    let publish : Output → Unit → Except PublishError Unit × Unit := fun _ x => (.ok (), x)
    let s : Shared := ⟨.new 10 2, 0, 7, 0, [], []⟩
    ∃ store event quote tick s',
      HistoricalStore.ofUrl "http://history:8000" none = .ok store ∧
      s.guard.isLive s.instant event.id = false ∧ validate event = .ok quote ∧
      quote.price = none ∧ quote.instrumentId = "A.N" ∧
      process (store.around network publish) (.event event none) s ((), []) =
        (.ok (.published (.tick tick)), s', (), [(store.latestUrl "A.N", reply)]) ∧
      tick.payload.price = 2.5 := by
  intro reply network publish s
  obtain ⟨store, hstore⟩ :
      ∃ store, HistoricalStore.ofUrl "http://history:8000" none = .ok store := ⟨_, rfl⟩
  obtain ⟨event, quote, hvalid, hnone, hid⟩ : ∃ event quote, validate event = .ok quote ∧
      quote.price = none ∧ quote.instrumentId = "A.N" :=
    ⟨⟨⟨"e", "t", "1", "x", "p", 5, 5⟩,
      ⟨"feed", "N", "A", 1, 5, some "[null]", some "json", ⟨some " A.N ", 0, []⟩⟩⟩,
      _, rfl, rfl, rfl⟩
  have haccepts : ∀ output x, (publish output x).1 = .ok () := fun _ _ => rfl
  have hoffers : reply.Offers 2.5 :=
    ⟨_, _, rfl, rfl, rfl, by decide +kernel, by decide +kernel⟩
  obtain ⟨_, output, s', _, ⟨_, rfl⟩, hprocess, hoffered, -, -, htick⟩ :=
    lookup_fails_closed store network haccepts none (s := s) rfl hvalid hnone ()
  obtain ⟨tick, rfl⟩ := hoffered.mpr ⟨2.5, hoffers⟩
  refine ⟨store, event, quote, tick, s', hstore, rfl, hvalid, hnone, hid, hid ▸ hprocess, ?_⟩
  exact (htick tick rfl).2.1.unique hoffers

end MarketFeed
