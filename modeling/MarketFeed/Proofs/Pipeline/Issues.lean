import MarketFeed.Proofs.Pipeline.Contract

/-!
# The issues of a tick in their order

Codes are added to a set at its end and only if they are new, so the set of a list has the codes of
the list as they occur first. The issues of a tick grow in three places: the codes of the source
come first, without the one that a source cannot claim, then a missing volume, and last a price that
was looked up. Since the first two places never add the last code, it is there exactly if the price
was looked up.
-/

namespace MarketFeed

/-- The codes that a source can attach to a quote. -/
def Blob.ownIssues (blob : Blob) : List String :=
  blob.issues.filter fun code => code ≠ Issue.priceBackfilled.code

/-- Behind the codes of the source stands a missing volume, unless the source tells of it. -/
theorem Blob.codes_quoteIssues (blob : Blob) :
    blob.quoteIssues.codes = blob.ownIssues.eraseDups ++
      if blob.volume.isNone ∧ Issue.missingVolume.code ∉ blob.issues
        then [Issue.missingVolume.code] else [] := by
  have hother : Issue.missingVolume.code ≠ Issue.priceBackfilled.code := by decide
  have hown : Issue.missingVolume.code ∈ blob.ownIssues.eraseDups ↔
      Issue.missingVolume.code ∈ blob.issues := by
    rw [List.mem_eraseDups, ownIssues, List.mem_filter]
    simp [hother]
  have hset : (IssueSet.ofList (blob.issues.filter fun code =>
      code ≠ Issue.priceBackfilled.code)).codes = blob.ownIssues.eraseDups :=
    IssueSet.codes_ofList _
  unfold quoteIssues
  dsimp only
  cases hvolume : blob.volume.isNone with
  | false => simpa using hset
  | true =>
    rw [if_pos rfl, IssueSet.codes_insert, hset]
    by_cases htold : Issue.missingVolume.code ∈ blob.issues <;> simp [hown, htold]

/-- Behind the codes of a quote that was accepted stands that the price was looked up. -/
theorem Quote.codes_tickIssues {quote : Quote} (h : Issue.priceBackfilled.code ∉ quote.issues.codes)
    (backfilled : Bool) :
    (quote.tickIssues backfilled).codes =
      quote.issues.codes ++ if backfilled then [Issue.priceBackfilled.code] else [] := by
  cases backfilled with
  | false => simp [tickIssues]
  | true => simp [tickIssues, IssueSet.codes_insert, h]

/-- The issues of an accepted quote are those of the blob that the event holds. -/
theorem issues_of_validate {event : RawEvent} {quote : Quote} (h : validate event = .ok quote) :
    ∃ blob, event.payload.Holds blob ∧ quote.issues = blob.quoteIssues := by
  obtain ⟨blob, hblob, h⟩ := Json.bind_eq_ok.mp h
  obtain ⟨id, -, -, -, -, rfl⟩ := Blob.of_check h
  exact ⟨blob, RawPayload.decodeBlob_eq_ok_iff.mp hblob, rfl⟩

/-- The issues of the tick for a quote that was accepted, with its own price or one that was looked
up: the codes of the source as they occur first, without the one that it cannot claim, then a
missing volume if the source does not tell of it, and then, if it is so, that the price was looked
up. -/
theorem normalize_issues {event : RawEvent} {quote priced : Quote}
    (hvalid : validate event = .ok quote) (hpriced : { priced with price := quote.price } = quote)
    (hprice : priced.price ≠ none) (backfilled : Bool) (now : Int64) :
    ∃ blob tick, event.payload.Holds blob ∧
      normalize priced event backfilled now = .ok tick ∧
      tick.payload.quality.issues.codes =
        (blob.issues.filter fun code => code ≠ Issue.priceBackfilled.code).eraseDups ++
        (if blob.volume.isNone ∧ Issue.missingVolume.code ∉ blob.issues
          then [Issue.missingVolume.code] else []) ++
        (if backfilled then [Issue.priceBackfilled.code] else []) := by
  obtain ⟨blob, hholds, hissues⟩ := issues_of_validate hvalid
  obtain ⟨price, hgiven⟩ := Option.ne_none_iff_exists'.mp hprice
  have hsame : priced.issues = blob.quoteIssues := by
    rw [← hissues, ← hpriced]
  have hclaimed : Issue.priceBackfilled.code ∉ priced.issues.codes := by
    rw [hsame]
    exact blob.backfilled_not_mem_quoteIssues
  refine ⟨blob, priced.tick event price backfilled now, hholds, by rw [normalize, hgiven], ?_⟩
  change (priced.tickIssues backfilled).codes = _
  rw [Quote.codes_tickIssues hclaimed, hsame, blob.codes_quoteIssues]
  rfl

/-- The source repeats a code and claims that the price was looked up, and there is neither a price
nor a volume. A price is looked up then. -/
theorem normalize_issues_of_claimed :
    let payload : RawPayload := ⟨"s", "m", "y", 1, 0,
      some "[null,null,null,\"i\",[\"b\",\"price_backfilled\",\"a\",\"b\"]]", some "json",
      ⟨none, 0, []⟩⟩
    let event : RawEvent := ⟨⟨"e", "t", "1", "x", "p", 0, 0⟩, payload⟩
    let issues : IssueSet := ⟨["b", "a", "missing_volume"], by decide⟩
    let quote : Quote := ⟨"i", "m", "y", none, none, none, issues⟩
    let priced : Quote := ⟨"i", "m", "y", some 1, none, none, issues⟩
    validate event = .ok quote ∧ { priced with price := quote.price } = quote ∧
      priced.price ≠ none ∧
      ∃ tick, normalize priced event true 7 = .ok tick ∧
        tick.payload.quality.issues.codes = ["b", "a", "missing_volume", "price_backfilled"] := by
  intro payload event issues quote priced
  have hvalid : validate event = .ok quote := by
    dsimp only [event, payload, quote, issues]
    rfl
  have hpriced : { priced with price := quote.price } = quote := rfl
  obtain ⟨blob, tick, hholds, htick, hcodes⟩ := normalize_issues hvalid hpriced nofun true 7
  exact ⟨hvalid, hpriced, nofun, tick, htick, by cases htick; rfl⟩

end MarketFeed
