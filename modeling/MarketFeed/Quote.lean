import MarketFeed.Base64
import MarketFeed.Contract
import MarketFeed.Event

/-!
# Quotes

The quote of a raw event is a blob: a document with a price, a volume and a few more fields,
possibly written in base 64. Validation decodes the blob and holds the quote to the contract
of the source. The first rule that is broken decides the breach: first the blob must be there
and decode, then an instrument and a symbol must be named, then the price and the volume must
be in range. A missing price is no breach, since it may still be looked up.
-/

namespace MarketFeed

open Json

/-- How a blob is encoded. -/
inductive BlobEncoding
  /-- It is the document itself. -/
  | json
  /-- It is the document in base 64. -/
  | base64
  deriving DecidableEq, Repr

/-- An ASCII letter in lower case; other characters stay as they are. -/
def lowerAscii (c : Char) : Char := if 'A' ≤ c ∧ c ≤ 'Z' then Char.ofNat (c.toNat + 32) else c

/-- The encoding a tag names, in any case and with white space around it. -/
def BlobEncoding.ofTag? (tag : String) : Option BlobEncoding :=
  let word := String.ofList ((Text.trimChars tag.toList).map lowerAscii)
  if word = "json" then some .json else if word = "base64" then some .base64 else none

/-- What a blob holds. -/
structure Blob where
  price : Option Float
  volume : Option Float
  currency : Option String
  instrumentId : Option String
  issues : List String

/-- How deep containers may be nested in a field of a blob: a document may have 127 levels,
and the blob is one of them. -/
def Blob.room : Nat := 126

/-- The fields of a blob; all have defaults. -/
def Blob.fields : Fields [Option Float, Option Float, Option String, Option String,
    List String] :=
  .cons { key := "price", read := readLenientNumber Blob.room, absence := .default none } <|
  .cons { key := "volume", read := readLenientNumber Blob.room, absence := .default none } <|
  .cons { key := "currency", read := readNonBlank, absence := .default none } <|
  .cons { key := "instrument_id", read := readNonBlank, absence := .default none } <|
  .cons { key := "issues", read := readList readString, absence := .default [] } .nil

/-- Read a blob. -/
def Blob.read (tree : Tree) : Except Fault Blob := do
  let (price, volume, currency, instrumentId, issues, _) ← Blob.fields.read tree
  pure ⟨price, volume, currency, instrumentId, issues⟩

/-- Decode a blob under an encoding. White space around a blob in base 64 is no part of it. -/
def BlobEncoding.decode (encoding : BlobEncoding) (blob : String) : Except ContractError Blob := do
  let bytes ← match encoding with
    | .json => pure (utf8 blob)
    | .base64 =>
      match Base64.decode? (Text.trimChars blob.toList) with
      | some bytes => pure bytes
      | none => throw (.schema "raw_payload is not valid base64: malformed text")
  match Json.decode Blob.read bytes with
  | .ok blob => pure blob
  | .error fault => throw (.schema ("raw_payload could not be decoded: " ++ fault.message))

/-- A quote that meets the contract. Its price may still be missing. -/
structure Quote where
  instrumentId : String
  market : String
  symbol : String
  price : Option Float
  volume : Option Float
  currency : Option String
  issues : IssueSet

/-- A price is usable if it is finite and positive. -/
def isUsablePrice (price : Float) : Bool := Number.isFinite price && 0 < price

/-- A volume is usable if it is finite and not negative. -/
def isUsableVolume (volume : Float) : Bool := Number.isFinite volume && 0 ≤ volume

/-- A double in the words of a message. -/
def shown (x : Float) : String := Number.Layout.message.text x

/-- The first of the ids that is not blank, without the white space around it. -/
def firstId? (ids : List (Option String)) : Option String :=
  (ids.filterMap id).findSome? fun id => Text.nonBlank? (Text.trim id)

/-- The encoding an event names for its blob. -/
def RawPayload.blobEncoding (payload : RawPayload) : Except ContractError BlobEncoding :=
  match payload.encoding.bind fun tag => Text.nonBlank? (Text.trim tag) with
  | none => .error (.schema "encoding is absent")
  | some tag =>
    match BlobEncoding.ofTag? tag with
    | some encoding => .ok encoding
    | none => .error (.schema ("unsupported encoding " ++ Text.quoted tag))

/-- The decoded blob of an event. -/
def RawPayload.decodeBlob (payload : RawPayload) : Except ContractError Blob :=
  match payload.blob with
  | none => .error (.schema "raw_payload is absent")
  | some blob => do
    let encoding ← payload.blobEncoding
    encoding.decode blob

/-- The issues of a quote: those of the source, except that it cannot claim a price to be
looked up, and then a missing volume. -/
def Blob.quoteIssues (blob : Blob) : IssueSet :=
  let own := IssueSet.ofList (blob.issues.filter fun code => code ≠ Issue.priceBackfilled.code)
  if blob.volume.isNone then own.insert Issue.missingVolume.code else own

/-- Hold a decoded blob to the rules for its fields. -/
def Blob.check (blob : Blob) (payload : RawPayload) : Except ContractError Quote := do
  let some instrumentId := firstId? [payload.metadata.instrumentId, blob.instrumentId]
    | throw (.violation .missingInstrumentId "instrument_id is absent")
  if Text.isBlank payload.symbol then
    throw (.violation .missingInstrumentId "symbol is empty")
  match blob.price with
  | some price =>
    unless isUsablePrice price do
      throw (.violation .invalidPrice
        ("price " ++ shown price ++ " is not a positive finite number"))
  | none => pure ()
  match blob.volume with
  | some volume =>
    unless isUsableVolume volume do
      throw (.violation .invalidVolume
        ("volume " ++ shown volume ++ " is not a non-negative finite number"))
  | none => pure ()
  pure ⟨instrumentId, payload.market, payload.symbol, blob.price, blob.volume, blob.currency,
    blob.quoteIssues⟩

/-- Decode the blob of an event and hold it to the contract. -/
def validate (event : RawEvent) : Except ContractError Quote := do
  let blob ← event.payload.decodeBlob
  blob.check event.payload

end MarketFeed
