import MarketFeed.Proofs.Codec.Base64
import MarketFeed.Proofs.Pipeline.Contract
import MarketFeed.Proofs.Text.Utf8

/-!
# A blob is the document it is written for

Under a tag that names an encoding, an event is held to the contract with what its blob decodes to,
and nothing else of the tag or the text has a say. So the two encodings agree: a document in
base 64, with white space around it, is accepted or refused as the document itself is, with the same
quote or the same breach.
-/

namespace MarketFeed

/-- The event with another text for its blob, and another tag for the encoding. -/
def RawEvent.withBlob (event : RawEvent) (tag text : String) : RawEvent :=
  { event with payload := { event.payload with blob := some text, encoding := some tag } }

/-- Under a tag that names an encoding, the contract is about what the text decodes to. -/
theorem validate_withBlob {encoding : BlobEncoding} {tag : String} (h : encoding.NamedBy tag)
    (event : RawEvent) (text : String) :
    validate (event.withBlob tag text) =
      encoding.decode text >>= fun blob => blob.check event.payload := by
  have hencoding : (event.withBlob tag text).payload.blobEncoding = .ok encoding :=
    RawPayload.blobEncoding_eq_ok_iff.mpr ⟨tag, rfl, h⟩
  change ((event.withBlob tag text).payload.blobEncoding >>= fun encoding =>
    encoding.decode text) >>= (fun blob => blob.check event.payload) = _
  rw [hencoding]
  rfl

/-- A text in base 64, with white space around it, is decoded as the text itself. -/
theorem BlobEncoding.decode_base64 (text : String) {before after : List Char}
    (hbefore : ∀ c ∈ before, Text.isBlankChar c = true)
    (hafter : ∀ c ∈ after, Text.isBlankChar c = true) :
    BlobEncoding.base64.decode
        (String.ofList (before ++ Base64.encode (utf8 text) ++ after)) =
      BlobEncoding.json.decode text := by
  have hbytes : BlobEncoding.base64.bytes?
      (String.ofList (before ++ Base64.encode (utf8 text) ++ after)) = some (utf8 text) := by
    rw [bytes?, String.toList_ofList,
      Text.trimChars_padded hbefore hafter (Base64.isBlankChar_of_mem_encode _),
      Base64.decode?_encode]
  rw [decode_eq, hbytes, decode_eq, bytes?]

/-- A document under a tag for documents is held to the contract with what it says. -/
theorem validate_json {tag : String} (h : BlobEncoding.json.NamedBy tag) (event : RawEvent)
    (text : String) :
    validate (event.withBlob tag text) =
      match Json.decode Blob.read (utf8 text) with
      | .ok blob => blob.check event.payload
      | .error fault =>
        .error (.schema ("raw_payload could not be decoded: " ++ fault.message)) := by
  have hdecode : BlobEncoding.json.decode text = match Json.decode Blob.read (utf8 text) with
      | .ok blob => .ok blob
      | .error fault =>
        .error (.schema ("raw_payload could not be decoded: " ++ fault.message)) :=
    BlobEncoding.decode_eq .json text
  rw [validate_withBlob h, hdecode]
  cases Json.decode Blob.read (utf8 text) <;> rfl

/-- A document in base 64, with any white space around it and under any tag for base 64, is
accepted or refused as the document itself is under any tag for it: the quote is the same, or the
breach with its details. Both are what the document says, held to the contract. -/
theorem validate_base64 (event : RawEvent) (text : String) {jsonTag base64Tag : String}
    (hjson : BlobEncoding.json.NamedBy jsonTag) (hbase64 : BlobEncoding.base64.NamedBy base64Tag)
    {before after : List Char} (hbefore : ∀ c ∈ before, Text.isBlankChar c = true)
    (hafter : ∀ c ∈ after, Text.isBlankChar c = true) :
    validate (event.withBlob base64Tag
        (String.ofList (before ++ Base64.encode (utf8 text) ++ after))) =
      validate (event.withBlob jsonTag text) ∧
    validate (event.withBlob jsonTag text) =
      match Json.decode Blob.read (utf8 text) with
      | .ok blob => blob.check event.payload
      | .error fault =>
        .error (.schema ("raw_payload could not be decoded: " ++ fault.message)) := by
  refine ⟨?_, validate_json hjson event text⟩
  rw [validate_withBlob hbase64, validate_withBlob hjson,
    BlobEncoding.decode_base64 text hbefore hafter]

/-- A document that is no blob, behind a space that is not an ASCII one and in front of a line
feed. -/
theorem validate_base64_of_unreadable :
    let event : RawEvent := ⟨⟨"e", "t", "1", "x", "p", 0, 0⟩,
      ⟨"s", "m", "y", 1, 0, none, none, ⟨some "i", 0, []⟩⟩⟩
    BlobEncoding.json.NamedBy "Json" ∧ BlobEncoding.base64.NamedBy "\tBASE64 " ∧
      (∀ c ∈ ['\u3000'], Text.isBlankChar c = true) ∧ (∀ c ∈ ['\n'], Text.isBlankChar c = true) ∧
      validate (event.withBlob "\tBASE64 " "\u3000ezo=\n") =
        validate (event.withBlob "Json" "\x7b:") ∧
      validate (event.withBlob "Json" "\x7b:") = .error (.schema
        "raw_payload could not be decoded: not a document of the expected shape") := by
  intro event
  have hjson : BlobEncoding.json.NamedBy "Json" := BlobEncoding.ofTag?_eq_some_iff.mp rfl
  have hbase64 : BlobEncoding.base64.NamedBy "\tBASE64 " := BlobEncoding.ofTag?_eq_some_iff.mp rfl
  have hbefore : ∀ c ∈ ['\u3000'], Text.isBlankChar c = true :=
    List.forall_mem_singleton.mpr (by decide)
  have hafter : ∀ c ∈ ['\n'], Text.isBlankChar c = true :=
    List.forall_mem_singleton.mpr (by decide)
  obtain ⟨hsame, hsays⟩ := validate_base64 event "\x7b:" hjson hbase64 hbefore hafter
  exact ⟨hjson, hbase64, hbefore, hafter, hsame, hsays⟩

end MarketFeed
