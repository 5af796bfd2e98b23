import MarketFeed.Proofs.Pipeline.Quote

/-!
# The contract for an event, rule by rule

The contract has seven rules, in a fixed order. Three are about the blob: it is there, its
encoding is known and it can be decoded. Four are about what the blob and the event hold: an
instrument, a symbol, a price and a volume. An event is accepted if it meets them all, and
otherwise the first rule that it breaks decides the breach, so that no field is looked at in a
blob that cannot be decoded.

What it means to name an encoding or an instrument, and which blob an event holds, is said here
without the functions that look for them.
-/

namespace MarketFeed

/-! ## The encoding of a blob -/

/-- The lower case of an ASCII letter is its lower case. -/
theorem lowerAscii_eq_toLower (c : Char) : lowerAscii c = c.toLower := by
  unfold lowerAscii Char.toLower
  by_cases h : 'A' ≤ c ∧ c ≤ 'Z'
  · have hle : c.toNat ≤ 90 := h.2
    have hvalid : (c.toNat + 32).isValidChar := .inl (by omega)
    rw [if_pos h, dif_pos (show c.val ≥ 'A'.val ∧ c.val ≤ 'Z'.val from h)]
    apply Char.ext
    apply UInt32.toNat_inj.mp
    calc (Char.ofNat (c.toNat + 32)).val.toNat = c.toNat + 32 := by
          rw [Char.ofNat, dif_pos hvalid]
          rfl
      _ = (c.val + 32).toNat := by
          rw [UInt32.toNat_add]
          change c.toNat + 32 = (c.toNat + 32) % 2 ^ 32
          omega
  · rw [if_neg h, dif_neg (show ¬ (c.val ≥ 'A'.val ∧ c.val ≤ 'Z'.val) from h)]

/-- The lower case of a text has the lower case of its characters. -/
theorem toList_toLower (s : String) : s.toLower.toList = s.toList.map Char.toLower :=
  String.toList_map

/-- The word for an encoding. -/
def BlobEncoding.word : BlobEncoding → String
  | .json => "json"
  | .base64 => "base64"

/-- A tag names an encoding by its word, in any case and with white space around it. -/
def BlobEncoding.NamedBy (encoding : BlobEncoding) (tag : String) : Prop :=
  (Text.trim tag).toLower = encoding.word

namespace BlobEncoding

/-- The encoding found for a tag is the one that the tag names. -/
theorem ofTag?_eq_some_iff {tag : String} {encoding : BlobEncoding} :
    ofTag? tag = some encoding ↔ encoding.NamedBy tag := by
  have hword : String.ofList ((Text.trimChars tag.toList).map lowerAscii) =
      (Text.trim tag).toLower := by
    rw [← String.toList_inj, toList_toLower, String.toList_ofList, Text.trim, String.toList_ofList]
    exact List.map_congr_left fun c _ => lowerAscii_eq_toLower c
  rw [ofTag?, hword, NamedBy]
  cases encoding with
  | json => by_cases hjson : (Text.trim tag).toLower = "json" <;> simp [hjson, word]
  | base64 =>
    by_cases hjson : (Text.trim tag).toLower = "json"
    · simp [hjson, word]
    · simp [hjson, word]

/-- White space around a tag is no part of what it names. -/
theorem namedBy_trim {tag : String} {encoding : BlobEncoding} :
    encoding.NamedBy (Text.trim tag) ↔ encoding.NamedBy tag := by
  rw [NamedBy, Text.trim_trim, NamedBy]

/-- A blank tag names no encoding. -/
theorem NamedBy.shown {tag : String} {encoding : BlobEncoding} (h : encoding.NamedBy tag) :
    Text.isBlank tag = false := by
  cases hblank : Text.isBlank tag with
  | false => rfl
  | true =>
    rw [NamedBy, Text.trim_of_isBlank hblank, ← String.toList_inj, toList_toLower] at h
    cases encoding <;> simp [word] at h

/-- A text that is no document in its encoding is a breach of the schema. -/
theorem schema_of_decode {encoding : BlobEncoding} {text : String} {error : ContractError}
    (h : encoding.decode text = .error error) : ∃ detail, error = .schema detail := by
  rw [decode_eq] at h
  split at h
  · exact ⟨_, (Except.error.inj h).symm⟩
  · split at h
    · cases h
    · exact ⟨_, (Except.error.inj h).symm⟩

end BlobEncoding

/-! ## What an event holds -/

namespace RawPayload

/-- The encoding of an event's blob is the one that its tag names. -/
theorem blobEncoding_eq_ok_iff {payload : RawPayload} {encoding : BlobEncoding} :
    payload.blobEncoding = .ok encoding ↔
      ∃ tag, payload.encoding = some tag ∧ encoding.NamedBy tag := by
  unfold blobEncoding
  constructor
  · intro h
    split at h
    · cases h
    · rename_i named hnamed
      obtain ⟨tag, htag, hshown⟩ := Option.bind_eq_some_iff.mp hnamed
      obtain ⟨rfl, -⟩ := Text.nonBlank?_eq_some hshown
      split at h
      · rename_i other hother
        obtain rfl := Except.ok.inj h
        exact ⟨tag, htag, BlobEncoding.namedBy_trim.mp (BlobEncoding.ofTag?_eq_some_iff.mp hother)⟩
      · cases h
  · rintro ⟨tag, htag, hnamed⟩
    have hfound := BlobEncoding.ofTag?_eq_some_iff.mpr (BlobEncoding.namedBy_trim.mpr hnamed)
    simp [htag, Text.nonBlank?, hnamed.shown, hfound]

/-- An event holds a blob: it names the encoding of its text, and the document that the text is
written for says what is in the blob. -/
def Holds (payload : RawPayload) (blob : Blob) : Prop :=
  ∃ text tag bytes, ∃ encoding : BlobEncoding,
    payload.blob = some text ∧ payload.encoding = some tag ∧ encoding.NamedBy tag ∧
      encoding.bytes? text = some bytes ∧ Json.decode Blob.read bytes = .ok blob

/-- The blob that is decoded is the one that the event holds. -/
theorem decodeBlob_eq_ok_iff {payload : RawPayload} {blob : Blob} :
    payload.decodeBlob = .ok blob ↔ payload.Holds blob := by
  unfold decodeBlob
  constructor
  · intro h
    split at h
    · cases h
    · rename_i text htext
      obtain ⟨encoding, hencoding, h⟩ := Json.bind_eq_ok.mp h
      obtain ⟨tag, htag, hnamed⟩ := blobEncoding_eq_ok_iff.mp hencoding
      obtain ⟨bytes, hbytes, hdecode⟩ := BlobEncoding.of_decode h
      exact ⟨text, tag, bytes, encoding, htext, htag, hnamed, hbytes, hdecode⟩
  · rintro ⟨text, tag, bytes, encoding, htext, htag, hnamed, hbytes, hdecode⟩
    rw [htext, blobEncoding_eq_ok_iff.mpr ⟨tag, htag, hnamed⟩]
    simp only [bind, Except.bind, BlobEncoding.decode_eq, hbytes, hdecode]

/-- An event holds one blob at most. -/
theorem Holds.unique {payload : RawPayload} {blob other : Blob} (h : payload.Holds blob)
    (hother : payload.Holds other) : blob = other :=
  Except.ok.inj ((decodeBlob_eq_ok_iff.mpr h).symm.trans (decodeBlob_eq_ok_iff.mpr hother))

/-- What is said of every blob that an event holds is said of the one. -/
theorem Holds.forall_iff {payload : RawPayload} {blob : Blob} (h : payload.Holds blob)
    {P : Blob → Prop} : (∀ other, payload.Holds other → P other) ↔ P blob :=
  ⟨fun hall => hall blob h, fun hblob _ hother => h.unique hother ▸ hblob⟩

/-- An encoding that is not known is a breach of the schema. -/
theorem schema_of_blobEncoding {payload : RawPayload} {error : ContractError}
    (h : payload.blobEncoding = .error error) : ∃ detail, error = .schema detail := by
  unfold blobEncoding at h
  split at h
  · exact ⟨_, (Except.error.inj h).symm⟩
  · split at h
    · cases h
    · exact ⟨_, (Except.error.inj h).symm⟩

/-- Whatever keeps a blob from being decoded is a breach of the schema. -/
theorem schema_of_decodeBlob {payload : RawPayload} {error : ContractError}
    (h : payload.decodeBlob = .error error) : ∃ detail, error = .schema detail := by
  unfold decodeBlob at h
  split at h
  · exact ⟨_, (Except.error.inj h).symm⟩
  · cases hencoding : payload.blobEncoding with
    | error unknown =>
      rw [hencoding] at h
      obtain rfl := Except.error.inj h
      exact schema_of_blobEncoding hencoding
    | ok encoding =>
      rw [hencoding] at h
      exact BlobEncoding.schema_of_decode h

/-- The instrument of an event is the one that its connector names, and if there is none, the one
that is named in the blob. A blank name is none, and white space around a name is no part of it. -/
inductive NamesInstrument (payload : RawPayload) (blob : Blob) : String → Prop
  | byConnector {name : String} (given : payload.metadata.instrumentId = some name)
      (shown : Text.isBlank name = false) : NamesInstrument payload blob (Text.trim name)
  | inBlob {name : String}
      (unnamed : ∀ own, payload.metadata.instrumentId = some own → Text.isBlank own = true)
      (given : blob.instrumentId = some name) (shown : Text.isBlank name = false) :
      NamesInstrument payload blob (Text.trim name)

end RawPayload

/-- Looking for an id goes on behind a name that is absent or blank. -/
theorem firstId?_cons {name : Option String} {names : List (Option String)} {id : String} :
    firstId? (name :: names) = some id ↔
      (∃ shown, name = some shown ∧ Text.isBlank shown = false ∧ Text.trim shown = id) ∨
      ((∀ blank, name = some blank → Text.isBlank blank = true) ∧ firstId? names = some id) := by
  cases name with
  | none => simp [firstId?]
  | some name =>
    cases hblank : Text.isBlank name <;> simp [firstId?, Text.nonBlank?, hblank]

/-- The id that is found is that of the instrument that the event names. -/
theorem RawPayload.firstId?_eq_some_iff {payload : RawPayload} {blob : Blob} {id : String} :
    firstId? [payload.metadata.instrumentId, blob.instrumentId] = some id ↔
      payload.NamesInstrument blob id := by
  rw [firstId?_cons, firstId?_cons]
  constructor
  · rintro (⟨name, hgiven, hshown, rfl⟩ | ⟨hunnamed, ⟨name, hgiven, hshown, rfl⟩ | ⟨-, h⟩⟩)
    · exact .byConnector hgiven hshown
    · exact .inBlob hunnamed hgiven hshown
    · cases h
  · rintro (⟨hgiven, hshown⟩ | ⟨hunnamed, hgiven, hshown⟩)
    · exact .inl ⟨_, hgiven, hshown, rfl⟩
    · exact .inr ⟨hunnamed, .inl ⟨_, hgiven, hshown, rfl⟩⟩

/-! ## The rules for the fields -/

namespace Blob

variable {blob : Blob} {payload : RawPayload}

/-- An instrument must be named. -/
theorem check_of_unnamed
    (hid : firstId? [payload.metadata.instrumentId, blob.instrumentId] = none) :
    blob.check payload = .error (.violation .missingInstrumentId "instrument_id is absent") := by
  simp only [check, hid]
  rfl

variable {id : String}

/-- A symbol must be shown. -/
theorem check_of_blank_symbol
    (hid : firstId? [payload.metadata.instrumentId, blob.instrumentId] = some id)
    (hsymbol : Text.isBlank payload.symbol = true) :
    blob.check payload = .error (.violation .missingInstrumentId "symbol is empty") := by
  simp only [check, hid, hsymbol]
  rfl

/-- A price must be usable. -/
theorem check_of_unusable_price {price : Float}
    (hid : firstId? [payload.metadata.instrumentId, blob.instrumentId] = some id)
    (hsymbol : Text.isBlank payload.symbol = false) (hprice : blob.price = some price)
    (hunusable : isUsablePrice price = false) :
    blob.check payload = .error (.violation .invalidPrice
      ("price " ++ shown price ++ " is not a positive finite number")) := by
  simp only [check, hid, hsymbol, hprice, hunusable]
  rfl

/-- A volume must be usable. -/
theorem check_of_unusable_volume {volume : Float}
    (hid : firstId? [payload.metadata.instrumentId, blob.instrumentId] = some id)
    (hsymbol : Text.isBlank payload.symbol = false)
    (hprice : ∀ price, blob.price = some price → isUsablePrice price = true)
    (hvolume : blob.volume = some volume) (hunusable : isUsableVolume volume = false) :
    blob.check payload = .error (.violation .invalidVolume
      ("volume " ++ shown volume ++ " is not a non-negative finite number")) := by
  cases hfound : blob.price with
  | none =>
    simp only [check, hid, hsymbol, hfound, hvolume, hunusable]
    rfl
  | some price =>
    simp only [check, hid, hsymbol, hfound, hprice price hfound, hvolume, hunusable]
    rfl

/-- A blob that meets each rule becomes a quote. -/
theorem check_of_sound
    (hid : firstId? [payload.metadata.instrumentId, blob.instrumentId] = some id)
    (hsymbol : Text.isBlank payload.symbol = false)
    (hprice : ∀ price, blob.price = some price → isUsablePrice price = true)
    (hvolume : ∀ volume, blob.volume = some volume → isUsableVolume volume = true) :
    blob.check payload = .ok ⟨id, payload.market, payload.symbol, blob.price, blob.volume,
      blob.currency, blob.quoteIssues⟩ := by
  cases hfound : blob.price <;> cases hgiven : blob.volume <;>
    simp [check, hid, hsymbol, hfound, hgiven, hprice, hvolume, pure, Except.pure]

end Blob

/-! ## The rules in their order -/

/-- The rules of the contract. -/
inductive ContractRule
  /-- There is a blob. -/
  | blobGiven
  /-- A tag names its encoding. -/
  | encodingKnown
  /-- It can be decoded. -/
  | blobDecodes
  /-- An instrument is named, by the connector or in the blob. -/
  | instrumentNamed
  /-- The symbol is not blank. -/
  | symbolShown
  /-- A price, if there is one, is finite and positive. -/
  | priceUsable
  /-- A volume, if there is one, is finite and not negative. -/
  | volumeUsable
  deriving DecidableEq, Repr

namespace ContractRule

/-- The rules in the order in which an event is held to them. -/
def all : List ContractRule :=
  [blobGiven, encodingKnown, blobDecodes, instrumentNamed, symbolShown, priceUsable, volumeUsable]

/-- The rules that come before a rule. -/
def before (rule : ContractRule) : List ContractRule := all.takeWhile fun other => other ≠ rule

/-- An event meets a rule. The rules for the fields of a blob are about the blob that the event
holds. -/
def MetBy (rule : ContractRule) (event : RawEvent) : Prop :=
  match rule with
  | blobGiven => ∃ text, event.payload.blob = some text
  | encodingKnown =>
    ∃ tag, ∃ encoding : BlobEncoding, event.payload.encoding = some tag ∧ encoding.NamedBy tag
  | blobDecodes => ∃ blob, event.payload.Holds blob
  | instrumentNamed => ∀ blob, event.payload.Holds blob →
    ∃ id, event.payload.NamesInstrument blob id
  | symbolShown => Text.isBlank event.payload.symbol = false
  | priceUsable => ∀ blob, event.payload.Holds blob →
    ∀ price, blob.price = some price → Number.isFinite price = true ∧ 0 < price
  | volumeUsable => ∀ blob, event.payload.Holds blob →
    ∀ volume, blob.volume = some volume → Number.isFinite volume = true ∧ 0 ≤ volume

/-- The error code for events that break a rule. -/
def code : ContractRule → ErrorCode
  | blobGiven | encodingKnown | blobDecodes => .validationError
  | instrumentNamed | symbolShown | priceUsable | volumeUsable => .contractViolation

/-- The issue of events that break a rule. -/
def issue : ContractRule → Issue
  | blobGiven | encodingKnown | blobDecodes => .schemaValidationFailed
  | instrumentNamed | symbolShown => .missingInstrumentId
  | priceUsable => .invalidPrice
  | volumeUsable => .invalidVolume

/-- An event breaks a rule and meets all that come before it. -/
structure FirstBroken (rule : ContractRule) (event : RawEvent) : Prop where
  broken : ¬ rule.MetBy event
  before : ∀ earlier ∈ rule.before, earlier.MetBy event

/-- Of the rules that an event breaks, one comes first. -/
theorem exists_firstBroken {event : RawEvent} (h : ¬ ∀ rule : ContractRule, rule.MetBy event) :
    ∃ rule : ContractRule, rule.FirstBroken event := by
  classical
  obtain ⟨broken, hbroken⟩ := not_forall.mp h
  obtain ⟨rule, hfound⟩ : ∃ rule, all.find? (fun rule => ¬ rule.MetBy event) = some rule := by
    rw [← Option.isSome_iff_exists, List.find?_isSome]
    exact ⟨broken, by cases broken <;> decide, by simpa using hbroken⟩
  obtain ⟨hrule, earlier, later, hall, hearlier⟩ := List.find?_eq_some_iff_append.mp hfound
  replace hrule : ¬ rule.MetBy event := by simpa using hrule
  replace hearlier : ∀ other ∈ earlier, other.MetBy event := by simpa using hearlier
  have hbefore : rule.before = earlier := by
    rw [ContractRule.before, hall, List.takeWhile_append_of_pos,
      List.takeWhile_cons_of_neg (by simp), List.append_nil]
    intro other hother
    simp only [ne_eq, decide_not, Bool.not_eq_eq_eq_not, Bool.not_true, decide_eq_false_iff_not]
    rintro rfl
    exact hrule (hearlier _ hother)
  exact ⟨rule, hrule, hbefore ▸ hearlier⟩

variable {event : RawEvent} {blob : Blob}

/-- With a blob, the rule for prices is about the price there. -/
theorem metBy_priceUsable_iff (h : event.payload.Holds blob) :
    priceUsable.MetBy event ↔ ∀ price, blob.price = some price → isUsablePrice price = true := by
  simp only [isUsablePrice_iff]
  exact h.forall_iff

/-- With a blob, the rule for volumes is about the volume there. -/
theorem metBy_volumeUsable_iff (h : event.payload.Holds blob) :
    volumeUsable.MetBy event ↔
      ∀ volume, blob.volume = some volume → isUsableVolume volume = true := by
  simp only [isUsableVolume_iff]
  exact h.forall_iff

end ContractRule

/-! ## What is accepted and what is refused -/

/-- A quote holds what an event and its blob say. -/
structure Quote.Carries (quote : Quote) (payload : RawPayload) (blob : Blob) : Prop where
  instrumentId : payload.NamesInstrument blob quote.instrumentId
  market : quote.market = payload.market
  symbol : quote.symbol = payload.symbol
  price : quote.price = blob.price
  volume : quote.volume = blob.volume
  currency : quote.currency = blob.currency
  issues : quote.issues = blob.quoteIssues

/-- An event that holds no blob breaks the schema. -/
theorem validate_of_not_holds {event : RawEvent} (h : ¬ ∃ blob, event.payload.Holds blob) :
    ∃ detail, validate event = .error (.schema detail) := by
  cases hblob : event.payload.decodeBlob with
  | ok blob => exact absurd ⟨blob, RawPayload.decodeBlob_eq_ok_iff.mp hblob⟩ h
  | error error =>
    obtain ⟨detail, rfl⟩ := RawPayload.schema_of_decodeBlob hblob
    exact ⟨detail, by rw [validate, hblob]; rfl⟩

/-- An event that holds a blob is held to the rules for its fields. -/
theorem validate_of_holds {event : RawEvent} {blob : Blob} (h : event.payload.Holds blob) :
    validate event = blob.check event.payload := by
  rw [validate, RawPayload.decodeBlob_eq_ok_iff.mpr h]
  rfl

/-- An event that meets each rule is accepted, with what it and its blob hold. -/
theorem accepted_of_met {event : RawEvent} (h : ∀ rule : ContractRule, rule.MetBy event) :
    ∃ blob quote, event.payload.Holds blob ∧ validate event = .ok quote ∧
      quote.Carries event.payload blob := by
  obtain ⟨blob, hblob⟩ := h .blobDecodes
  obtain ⟨id, hid⟩ := h .instrumentNamed blob hblob
  have hcheck := Blob.check_of_sound (RawPayload.firstId?_eq_some_iff.mpr hid) (h .symbolShown)
    ((ContractRule.metBy_priceUsable_iff hblob).mp (h .priceUsable))
    ((ContractRule.metBy_volumeUsable_iff hblob).mp (h .volumeUsable))
  exact ⟨blob, _, hblob, (validate_of_holds hblob).trans hcheck, hid, rfl, rfl, rfl, rfl, rfl, rfl⟩

/-- An event is refused for the first rule that it breaks. -/
theorem ContractRule.FirstBroken.refused {rule : ContractRule} {event : RawEvent}
    (h : rule.FirstBroken event) :
    ∃ error, validate event = .error error ∧ error.code = rule.code ∧
      error.issue = rule.issue := by
  cases rule with
  | blobGiven =>
    have hnone : ¬ ∃ blob, event.payload.Holds blob :=
      fun ⟨_, text, _, _, _, htext, _⟩ => h.broken ⟨text, htext⟩
    obtain ⟨detail, hrefused⟩ := validate_of_not_holds hnone
    exact ⟨_, hrefused, rfl, rfl⟩
  | encodingKnown =>
    have hnone : ¬ ∃ blob, event.payload.Holds blob :=
      fun ⟨_, _, tag, _, encoding, _, htag, hnamed, _⟩ => h.broken ⟨tag, encoding, htag, hnamed⟩
    obtain ⟨detail, hrefused⟩ := validate_of_not_holds hnone
    exact ⟨_, hrefused, rfl, rfl⟩
  | blobDecodes =>
    obtain ⟨detail, hrefused⟩ := validate_of_not_holds h.broken
    exact ⟨_, hrefused, rfl, rfl⟩
  | instrumentNamed =>
    obtain ⟨blob, hblob⟩ := h.before blobDecodes (by decide)
    have hnone : firstId? [event.payload.metadata.instrumentId, blob.instrumentId] = none := by
      rw [Option.eq_none_iff_forall_ne_some]
      intro id hid
      exact h.broken (hblob.forall_iff.mpr ⟨id, RawPayload.firstId?_eq_some_iff.mp hid⟩)
    exact ⟨_, (validate_of_holds hblob).trans (Blob.check_of_unnamed hnone), rfl, rfl⟩
  | symbolShown =>
    obtain ⟨blob, hblob⟩ := h.before blobDecodes (by decide)
    obtain ⟨id, hid⟩ := h.before instrumentNamed (by decide) blob hblob
    have hcheck := Blob.check_of_blank_symbol (RawPayload.firstId?_eq_some_iff.mpr hid)
      (eq_true_of_ne_false h.broken)
    exact ⟨_, (validate_of_holds hblob).trans hcheck, rfl, rfl⟩
  | priceUsable =>
    obtain ⟨blob, hblob⟩ := h.before blobDecodes (by decide)
    obtain ⟨id, hid⟩ := h.before instrumentNamed (by decide) blob hblob
    obtain ⟨price, hprice, hunusable⟩ :
        ∃ price, blob.price = some price ∧ isUsablePrice price = false := by
      simpa using mt (metBy_priceUsable_iff hblob).mpr h.broken
    have hcheck := Blob.check_of_unusable_price (RawPayload.firstId?_eq_some_iff.mpr hid)
      (h.before symbolShown (by decide)) hprice hunusable
    exact ⟨_, (validate_of_holds hblob).trans hcheck, rfl, rfl⟩
  | volumeUsable =>
    obtain ⟨blob, hblob⟩ := h.before blobDecodes (by decide)
    obtain ⟨id, hid⟩ := h.before instrumentNamed (by decide) blob hblob
    obtain ⟨volume, hvolume, hunusable⟩ :
        ∃ volume, blob.volume = some volume ∧ isUsableVolume volume = false := by
      simpa using mt (metBy_volumeUsable_iff hblob).mpr h.broken
    have hcheck := Blob.check_of_unusable_volume (RawPayload.firstId?_eq_some_iff.mpr hid)
      (h.before symbolShown (by decide))
      ((metBy_priceUsable_iff hblob).mp (h.before priceUsable (by decide))) hvolume hunusable
    exact ⟨_, (validate_of_holds hblob).trans hcheck, rfl, rfl⟩

/-- An event is accepted exactly if it meets each rule of the contract, and the quote holds what
the event and its blob say. Otherwise the event is refused for the first rule that it breaks. -/
theorem validate_keeps_contract (event : RawEvent) :
    ((∃ quote, validate event = .ok quote) ↔ ∀ rule : ContractRule, rule.MetBy event) ∧
    (∀ quote, validate event = .ok quote →
      ∃ blob, event.payload.Holds blob ∧ quote.Carries event.payload blob) ∧
    ((¬ ∀ rule : ContractRule, rule.MetBy event) →
      ∃ rule error, ContractRule.FirstBroken rule event ∧ validate event = .error error ∧
        error.code = rule.code ∧ error.issue = rule.issue) := by
  by_cases hmet : ∀ rule : ContractRule, rule.MetBy event
  · obtain ⟨blob, quote, hblob, haccepted, hcarries⟩ := accepted_of_met hmet
    refine ⟨⟨fun _ => hmet, fun _ => ⟨quote, haccepted⟩⟩, fun other hother => ?_, absurd hmet⟩
    obtain rfl := Except.ok.inj (haccepted.symm.trans hother)
    exact ⟨blob, hblob, hcarries⟩
  · obtain ⟨rule, hfirst⟩ := ContractRule.exists_firstBroken hmet
    obtain ⟨error, hrefused, hcode, hissue⟩ := hfirst.refused
    have hnone : ∀ quote, validate event ≠ .ok quote := by simp [hrefused]
    exact ⟨⟨fun ⟨quote, hquote⟩ => absurd hquote (hnone quote), fun h => absurd h hmet⟩,
      fun quote hquote => absurd hquote (hnone quote),
      fun _ => ⟨rule, error, hfirst, hrefused, hcode, hissue⟩⟩

end MarketFeed
