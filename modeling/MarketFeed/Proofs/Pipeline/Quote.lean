import MarketFeed.Normalization
import MarketFeed.Proofs.Issue.Sets
import MarketFeed.Proofs.Json.Members
import MarketFeed.Proofs.Text.Blank

/-!
# What a quote that was accepted is made of

Validation takes the parts of a quote out of the blob of an event and holds them to rules. The
rules are those of the contract; here they are read off again from a quote that was accepted,
together with where its price comes from. The blob carries no price if the document leaves it out,
or has null or a blank text in its place.

The issues of such a quote are not for the source alone to choose: a missing volume is always
among them, and a price that was looked up never is, whatever the source says.
-/

namespace MarketFeed

/-- The instrument that is named first is named by a text without white space around it. -/
theorem of_firstId? {ids : List (Option String)} {id : String} (h : firstId? ids = some id) :
    id ≠ "" ∧ Text.Trimmed id := by
  obtain ⟨named, -, hnamed⟩ := List.exists_of_findSome?_eq_some h
  obtain ⟨rfl, hshown⟩ := Text.nonBlank?_eq_some hnamed
  exact ⟨Text.ne_empty_of_isBlank hshown, Text.trimmed_trim named⟩

/-! ## Issues -/

/-- A source cannot claim that a price was looked up. -/
theorem Blob.backfilled_not_mem_quoteIssues (blob : Blob) :
    Issue.priceBackfilled.code ∉ blob.quoteIssues.codes := by
  have hown : Issue.priceBackfilled.code ∉ (IssueSet.ofList
      (blob.issues.filter fun code => code ≠ Issue.priceBackfilled.code)).codes := by
    simp [IssueSet.mem_ofList]
  have hother : Issue.priceBackfilled.code ≠ Issue.missingVolume.code := by decide
  unfold quoteIssues
  dsimp only
  split
  · rw [IssueSet.mem_insert]
    rintro (hmem | heq)
    · exact hown hmem
    · exact hother heq
  · exact hown

/-- A missing volume is an issue. -/
theorem Blob.missingVolume_mem_quoteIssues {blob : Blob} (h : blob.volume = none) :
    Issue.missingVolume.code ∈ blob.quoteIssues.codes := by
  simp [quoteIssues, h, IssueSet.mem_insert]

/-- The issues of a tick are those of its quote, and that the price was looked up. -/
theorem Quote.mem_tickIssues {quote : Quote} {backfilled : Bool} {code : String} :
    code ∈ (quote.tickIssues backfilled).codes ↔
      code ∈ quote.issues.codes ∨ (backfilled = true ∧ code = Issue.priceBackfilled.code) := by
  cases backfilled <;> simp [tickIssues, IssueSet.mem_insert]

/-- A tick is a fallback exactly if a looked up price is among its issues. -/
theorem Quality.status_ofIssues (issues : IssueSet) :
    (Quality.ofIssues issues).status = .fallback ↔
      Issue.priceBackfilled.code ∈ issues.codes := by
  simp [ofIssues, IssueSet.contains]

/-! ## The price in a blob -/

/-- The bytes of the document that a blob is written for. -/
def BlobEncoding.bytes? : BlobEncoding → String → Option Bytes
  | .json, blob => some (utf8 blob)
  | .base64, blob => Base64.decode? (Text.trimChars blob.toList)

namespace RawPayload

/-- The part of the blob that is in the place of the price. -/
def priceTree? (payload : RawPayload) : Option Json.Tree := do
  let blob ← payload.blob
  let encoding ← payload.blobEncoding.toOption
  let bytes ← encoding.bytes? blob
  let root ← (Json.Document.ofBytes bytes).root
  root.firstField? "price"

/-- The blob carries no price: it is absent, null or a blank text. -/
def CarriesNoPrice (payload : RawPayload) : Prop :=
  ∀ tree, payload.priceTree? = some tree → tree.IsVoid

/-- The blob carries a price: it is a number or a text that shows one. -/
def CarriesPrice (payload : RawPayload) (price : Float) : Prop :=
  ∃ tree, payload.priceTree? = some tree ∧ tree.Shows price

/-- A blob that carries a price does not carry none. -/
theorem CarriesPrice.not_carriesNoPrice {payload : RawPayload} {price : Float}
    (h : payload.CarriesPrice price) : ¬ payload.CarriesNoPrice := by
  obtain ⟨tree, htree, hshows⟩ := h
  exact fun hnone => hshows.not_isVoid (hnone tree htree)

end RawPayload

/-- A document that was read as a blob has the price that the blob has. -/
theorem Blob.of_read {root : Json.Tree} {blob : Blob} (h : Blob.read root = .ok blob) :
    (∃ tree, root.firstField? "price" = some tree ∧
        Json.readLenientNumber Blob.room tree = .ok blob.price) ∨
      (root.firstField? "price" = none ∧ blob.price = none) := by
  obtain ⟨⟨price, volume, currency, instrumentId, issues, row⟩, hrow, h⟩ := Json.bind_eq_ok.mp h
  obtain rfl := Except.ok.inj h
  rcases Json.Fields.read_cons (by decide) hrow with ⟨tree, htree, hread⟩ | ⟨hnone, habsence⟩
  · exact .inl ⟨tree, htree, hread⟩
  · exact .inr ⟨hnone, (Option.some.inj habsence).symm⟩

/-- A blob is decoded in two stages, first to the bytes of a document and then to what the
document says. -/
theorem BlobEncoding.decode_eq (encoding : BlobEncoding) (text : String) :
    encoding.decode text = match encoding.bytes? text with
      | none => .error (.schema "raw_payload is not valid base64: malformed text")
      | some bytes => match Json.decode Blob.read bytes with
        | .ok blob => .ok blob
        | .error fault =>
          .error (.schema ("raw_payload could not be decoded: " ++ fault.message)) := by
  cases encoding with
  | json => rfl
  | base64 =>
    simp only [decode, bytes?]
    cases Base64.decode? (Text.trimChars text.toList) <;> rfl

/-- A blob that was decoded under an encoding is the document that it is written for. -/
theorem BlobEncoding.of_decode {encoding : BlobEncoding} {text : String} {blob : Blob}
    (h : encoding.decode text = .ok blob) :
    ∃ bytes, encoding.bytes? text = some bytes ∧ Json.decode Blob.read bytes = .ok blob := by
  rw [decode_eq] at h
  split at h
  · cases h
  · rename_i bytes hbytes
    split at h
    · rename_i hdecode
      obtain rfl := Except.ok.inj h
      exact ⟨bytes, hbytes, hdecode⟩
    · cases h

/-- A blob that was decoded is what its document says. -/
theorem RawPayload.root_of_decodeBlob {payload : RawPayload} {blob : Blob}
    (h : payload.decodeBlob = .ok blob) :
    ∃ root, payload.priceTree? = root.firstField? "price" ∧ Blob.read root = .ok blob := by
  unfold decodeBlob at h
  split at h
  · cases h
  · obtain ⟨encoding, hencoding, h⟩ := Json.bind_eq_ok.mp h
    obtain ⟨bytes, hbytes, hdecode⟩ := BlobEncoding.of_decode h
    obtain ⟨root, hroot, hread⟩ := Json.of_decode hdecode
    refine ⟨root, ?_, hread⟩
    simp [priceTree?, *, Except.toOption]

/-- A blob that was decoded has no price if the event carries none, and otherwise the one the
event carries. -/
theorem RawPayload.price_of_decodeBlob {payload : RawPayload} {blob : Blob}
    (h : payload.decodeBlob = .ok blob) :
    (blob.price = none ∧ payload.CarriesNoPrice) ∨
      ∃ price, blob.price = some price ∧ payload.CarriesPrice price := by
  obtain ⟨root, hplace, hread⟩ := root_of_decodeBlob h
  rcases Blob.of_read hread with ⟨tree, htree, hnumber⟩ | ⟨hnone, hprice⟩
  · rw [htree] at hplace
    rcases Json.of_readLenientNumber hnumber with ⟨hprice, hvoid⟩ | ⟨price, hprice, hshows⟩
    · refine .inl ⟨hprice, fun other hother => ?_⟩
      obtain rfl : tree = other := Option.some.inj (hplace.symm.trans hother)
      exact hvoid
    · exact .inr ⟨price, hprice, tree, hplace, hshows⟩
  · refine .inl ⟨hprice, fun other hother => ?_⟩
    rw [hplace, hnone] at hother
    cases hother

/-! ## Validation -/

/-- A price that is usable is finite and positive. -/
theorem isUsablePrice_iff {price : Float} :
    isUsablePrice price = true ↔ Number.isFinite price = true ∧ 0 < price := by
  simp [isUsablePrice]

/-- A volume that is usable is finite and not negative. -/
theorem isUsableVolume_iff {volume : Float} :
    isUsableVolume volume = true ↔ Number.isFinite volume = true ∧ 0 ≤ volume := by
  simp [isUsableVolume]

/-- A blob that was accepted meets each rule, and the quote takes over what it holds. -/
theorem Blob.of_check {blob : Blob} {payload : RawPayload} {quote : Quote}
    (h : blob.check payload = .ok quote) :
    ∃ id, firstId? [payload.metadata.instrumentId, blob.instrumentId] = some id ∧
      Text.isBlank payload.symbol = false ∧
      (∀ price, blob.price = some price → isUsablePrice price = true) ∧
      (∀ volume, blob.volume = some volume → isUsableVolume volume = true) ∧
      quote = ⟨id, payload.market, payload.symbol, blob.price, blob.volume, blob.currency,
        blob.quoteIssues⟩ := by
  unfold check at h
  cases hid : firstId? [payload.metadata.instrumentId, blob.instrumentId] with
  | none =>
    simp only [hid] at h
    cases h
  | some id =>
    simp only [hid] at h
    cases hblank : Text.isBlank payload.symbol with
    | true =>
      simp only [hblank, ↓reduceIte] at h
      cases h
    | false =>
      simp only [hblank, Bool.false_eq_true, ↓reduceIte] at h
      have hprice : ∀ price, blob.price = some price → isUsablePrice price = true := by
        intro price hprice
        cases husable : isUsablePrice price with
        | true => rfl
        | false =>
          simp only [hprice, husable] at h
          cases h
      have hvolume : ∀ volume, blob.volume = some volume → isUsableVolume volume = true := by
        intro volume hvolume
        cases husable : isUsableVolume volume with
        | true => rfl
        | false =>
          cases hfound : blob.price with
          | none =>
            simp only [hfound, hvolume, husable] at h
            cases h
          | some price =>
            simp only [hfound, hprice price hfound, hvolume, husable, ↓reduceIte] at h
            cases h
      refine ⟨id, rfl, rfl, hprice, hvolume, ?_⟩
      -- With both rules met, what is left of the check is the quote.
      cases hfound : blob.price <;> cases hgiven : blob.volume <;> simp_all [pure, Except.pure]

/-- A quote that keeps to the contract, for an event. -/
structure Quote.Meets (quote : Quote) (event : RawEvent) : Prop where
  instrumentId : quote.instrumentId ≠ "" ∧ Text.Trimmed quote.instrumentId
  market : quote.market = event.payload.market
  symbol : quote.symbol = event.payload.symbol
  symbolShown : Text.isBlank quote.symbol = false
  price : ∀ price, quote.price = some price →
    isUsablePrice price = true ∧ event.payload.CarriesPrice price
  noPrice : quote.price = none → event.payload.CarriesNoPrice
  volume : ∀ volume, quote.volume = some volume → isUsableVolume volume = true
  missingVolume : quote.volume = none → Issue.missingVolume.code ∈ quote.issues.codes
  notBackfilled : Issue.priceBackfilled.code ∉ quote.issues.codes

/-- A quote that was accepted keeps to the contract. -/
theorem Quote.meets_of_validate {event : RawEvent} {quote : Quote}
    (h : validate event = .ok quote) : quote.Meets event := by
  obtain ⟨blob, hblob, h⟩ := Json.bind_eq_ok.mp h
  obtain ⟨id, hid, hsymbol, hprice, hvolume, rfl⟩ := Blob.of_check h
  refine ⟨of_firstId? hid, rfl, rfl, hsymbol, fun price hfound => ?_, fun hnone => ?_, hvolume,
    fun hnone => Blob.missingVolume_mem_quoteIssues hnone, blob.backfilled_not_mem_quoteIssues⟩
  · rcases RawPayload.price_of_decodeBlob hblob with ⟨hnone, -⟩ | ⟨price', hfound', hcarries⟩
    · cases hnone.symm.trans hfound
    · obtain rfl : price' = price := Option.some.inj (hfound'.symm.trans hfound)
      exact ⟨hprice price' hfound', hcarries⟩
  · rcases RawPayload.price_of_decodeBlob hblob with ⟨-, hcarries⟩ | ⟨price, hfound, -⟩
    · exact hcarries
    · cases hnone.symm.trans hfound

end MarketFeed
