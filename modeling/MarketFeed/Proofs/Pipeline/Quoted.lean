import MarketFeed.Proofs.Json.Columns
import MarketFeed.Proofs.Json.Reread
import MarketFeed.Proofs.Number.Quoted
import MarketFeed.Proofs.Pipeline.Encoding

/-!
# A number in quotes, in documents and blobs

A lenient number may be written as a numeral or as a text with a numeral in it. A document that is
accepted with the numeral for itself is accepted with the numeral in quotes, and the number is then
the double that the numeral rounds to. In a blob the same goes for the price and the volume: the
blob with the quoted numeral holds this double in the place of the other one, and is otherwise the
same blob.
-/

namespace MarketFeed.Json

open MarketFeed.Number

variable {n : Numeral} {s : Spelling} {part part' : Tree}

/-! ## Documents -/

/-- The text that is spelt is a numeral with white space around it. -/
inductive Spelling.Quotes (n : Numeral) (s : Spelling) : Prop
  | intro {before cs after : List Char} (h : n.Written cs)
      (hbefore : ∀ c ∈ before, Text.isBlankChar c = true)
      (hafter : ∀ c ∈ after, Text.isBlankChar c = true)
      (hs : s.text? = some (String.ofList (before ++ cs ++ after)))

/-- A numeral may be spelt with no white space around it. -/
theorem Spelling.quotes_spell {text : String} (h : n.Written text.toList) : (spell text).Quotes n :=
  @Spelling.Quotes.intro n _ [] _ [] h nofun nofun (by simp)

/-- A numeral is a lenient number if it is a number. -/
theorem readLenientNumber_numeral_iff {room : Nat} {number : Option Float} :
    readLenientNumber room (.numeral n) = .ok number ↔
      ∃ quantity, n.quantity? = some quantity ∧ number = some quantity.toFloat := by
  unfold readLenientNumber
  simp only [Tree.value]
  cases n.quantity? with
  | none => simp [bind, Except.bind]
  | some quantity => simp [bind, Except.bind, pure, Except.pure, eq_comm]

/-- The text of a numeral is not blank. -/
theorem isBlank_of_written {cs : List Char} (h : n.Written cs) :
    Text.isBlank (String.ofList cs) = false := by
  obtain ⟨b, more, hbytes, -⟩ := h.exists_cons
  rw [Text.isBlank, String.toList_ofList]
  cases cs with
  | nil => cases hbytes
  | cons c rest => rw [List.all_cons, h.isBlankChar List.mem_cons_self, Bool.false_and]

/-- A text with a numeral in it is the double that the numeral rounds to. -/
theorem Spelling.Quotes.readLenientNumber (h : s.Quotes n) (room : Nat) :
    readLenientNumber room (.string s) = .ok (some n.rounded) := by
  obtain ⟨h, hbefore, hafter, hs⟩ := h
  rename_i before cs after
  have htrim : Text.trim (String.ofList (before ++ cs ++ after)) = String.ofList cs := by
    rw [Text.trim, String.toList_ofList,
      Text.trimChars_padded hbefore hafter fun c hc => h.isBlankChar hc]
  have hshown : Text.isBlank (String.ofList (before ++ cs ++ after)) = false := by
    rw [← Text.isBlank_trim, htrim, isBlank_of_written h]
  have hread : readDouble? (utf8 (String.ofList cs)) = some n.rounded := by
    rw [utf8, String.toList_ofList, readDouble?_written h]
  have hvalue : Tree.value room (.string s) =
      .ok (.string (String.ofList (before ++ cs ++ after))) := by
    simp only [Tree.value, Spelling.read_eq_ok.mpr hs]
    rfl
  unfold Json.readLenientNumber
  rw [hvalue]
  change (if Text.isBlank _ = true then _ else _) = _
  rw [if_neg (by rw [hshown]; exact Bool.false_ne_true), htrim, hread]
  rfl

end MarketFeed.Json

namespace MarketFeed

open Json Number

variable {n : Numeral} {s : Spelling} {spot : Spot} {part : Tree} {blob : Blob}

/-! ## Blobs -/

/-- The lenient numbers of a blob. -/
inductive BlobNumber
  | price
  | volume
  deriving DecidableEq, Repr

namespace BlobNumber

/-- The column of a number in the fields of a blob. -/
def column : BlobNumber →
    Column [Option Float, Option Float, Option String, Option String, List String] (Option Float)
  | price => .here
  | volume => .there .here

/-- The key of a number. -/
def key : BlobNumber → String
  | price => "price"
  | volume => "volume"

/-- The number in a blob. -/
def get : BlobNumber → Blob → Option Float
  | price, blob => blob.price
  | volume, blob => blob.volume

/-- The blob with another number. -/
def set : BlobNumber → Blob → Option Float → Blob
  | price, blob, x => { blob with price := x }
  | volume, blob, x => { blob with volume := x }

/-- A blob with the number it has is the blob itself. -/
@[simp] theorem set_get (number : BlobNumber) (blob : Blob) :
    number.set blob (number.get blob) = blob := by
  cases number <;> rfl

/-- The field of a number has its key and is read as a lenient number. -/
theorem field_column (number : BlobNumber) :
    number.column.field Blob.fields =
      { key := number.key, read := readLenientNumber Blob.room, absence := .default none } := by
  cases number <;> rfl

end BlobNumber

/-- The fields of a blob are read from the tree of it. -/
theorem Blob.read_eq_ok_iff {tree : Tree} :
    Blob.read tree = .ok blob ↔
      Blob.fields.read tree = .ok
        (blob.price, blob.volume, blob.currency, blob.instrumentId, blob.issues, ()) := by
  unfold Blob.read
  rw [bind_eq_ok]
  constructor
  · rintro ⟨⟨price, volume, currency, instrumentId, issues, ⟨⟩⟩, hread, hblob⟩
    cases hblob
    exact hread
  · exact fun hread => ⟨_, hread, rfl⟩

/-- A blob that is read with a value in the spot for a number has this number, and with any other
lenient number there it is read as the same blob but for the number. -/
theorem Blob.read_fill (number : BlobNumber) (hspot : spot.IsFor number.key number.column.index)
    (h : Blob.read (spot.fill part) = .ok blob) :
    readLenientNumber Blob.room part = .ok (number.get blob) ∧
      ∀ {part' : Tree} {x : Option Float}, readLenientNumber Blob.room part' = .ok x →
        Blob.read (spot.fill part') = .ok (number.set blob x) := by
  have hkey : spot.IsFor (number.column.field Blob.fields).key number.column.index := by
    rwa [number.field_column]
  obtain ⟨hread, hreplace⟩ := Fields.read_fill (by decide) number.column hkey
    (Blob.read_eq_ok_iff.mp h)
  rw [number.field_column] at hread hreplace
  cases number with
  | price => exact ⟨hread, fun hread' => Blob.read_eq_ok_iff.mpr (hreplace hread')⟩
  | volume => exact ⟨hread, fun hread' => Blob.read_eq_ok_iff.mpr (hreplace hread')⟩

/-- The text spells a tree: it is a document in the encoding, and this is the tree of it. -/
def BlobEncoding.Spells (encoding : BlobEncoding) (text : String) (tree : Tree) : Prop :=
  ∃ bytes, encoding.bytes? text = some bytes ∧ Document.ofBytes bytes = ⟨some tree, true⟩

namespace BlobEncoding

/-- The text of a document spells its tree. -/
theorem spells_of_written {tree : Tree} {text : String} (h : ItemWritten tree text.toList) :
    json.Spells text tree :=
  ⟨utf8 text, rfl, ofBytes_written h⟩

/-- A text that spells a tree is decoded as the blob that the tree is read as. -/
theorem Spells.decode_eq_ok_iff {encoding : BlobEncoding} {text : String} {tree : Tree}
    (h : encoding.Spells text tree) :
    encoding.decode text = .ok blob ↔ Blob.read tree = .ok blob := by
  obtain ⟨bytes, hbytes, hdocument⟩ := h
  have hdecode : Json.decode Blob.read bytes = Blob.read tree := by
    rw [Json.decode, hdocument]
    exact bind_pure _
  constructor
  · intro hblob
    obtain ⟨bytes', hbytes', hread⟩ := of_decode hblob
    obtain rfl := Option.some.inj (hbytes.symm.trans hbytes')
    exact hdecode.symm.trans hread
  · intro hread
    simp only [decode_eq, hbytes, hdecode, hread]

/-- A document with nothing but a price is decoded as a blob with nothing but the price. -/
theorem decode_price {text : String} {x : Option Float}
    (h : json.Spells text (Spot.fill (.member [] (spell "price") []) part))
    (hread : readLenientNumber Blob.room part = .ok x) :
    json.decode text = .ok ⟨x, none, none, none, []⟩ := by
  refine h.decode_eq_ok_iff.mpr (Blob.read_eq_ok_iff.mpr ?_)
  refine (Fields.read_object_iff (by decide)).mpr ⟨rfl, ?_, ?_⟩
  · exact List.forall_mem_singleton.mpr ⟨_, text?_spell _⟩
  · exact ⟨.there hread, .absent rfl, .absent rfl, .absent rfl, .absent rfl, trivial⟩

end BlobEncoding

/-- The blob with a number in quotes is the blob with the numeral for itself, but for the number,
which is the double that the numeral rounds to. -/
theorem BlobEncoding.decode_quoted (h : s.Quotes n) {encoding : BlobEncoding} {number : BlobNumber}
    (hspot : spot.IsFor number.key number.column.index) {bare quoted : String}
    (hbare : encoding.Spells bare (spot.fill (.numeral n)))
    (hquoted : encoding.Spells quoted (spot.fill (.string s)))
    (hdecode : encoding.decode bare = .ok blob) :
    ∃ quantity, n.quantity? = some quantity ∧ number.get blob = some quantity.toFloat ∧
      encoding.decode quoted = .ok (number.set blob (some n.rounded)) := by
  obtain ⟨hread, hreplace⟩ := Blob.read_fill number hspot (hbare.decode_eq_ok_iff.mp hdecode)
  obtain ⟨quantity, hquantity, hnumber⟩ := readLenientNumber_numeral_iff.mp hread
  exact ⟨quantity, hquantity, hnumber,
    hquoted.decode_eq_ok_iff.mpr (hreplace (h.readLenientNumber Blob.room))⟩

/-- Put a numeral in quotes, with any white space around it and spelt anyhow. A document that is
accepted as a lenient number with the numeral for itself is accepted with it in quotes, and the
number is then the double that the numeral rounds to; the other number is the same or beside it. A
blob that is decoded with the numeral for its price or its volume is decoded with it in quotes, and
is the same blob but for this double, so the contract has the same answer if the doubles are the
same. -/
theorem accepted_in_quotes (h : s.Quotes n) :
    (∀ {room : Nat} {bare quoted : List Char} {number : Option Float},
      ItemWritten (.numeral n) bare → ItemWritten (.string s) quoted →
      Json.decode (readLenientNumber room) (utf8Chars bare) = .ok number →
        ∃ x, number = some x ∧
          Json.decode (readLenientNumber room) (utf8Chars quoted) = .ok (some n.rounded) ∧
          (n.IsCountable → n.QuotedAs x n.rounded)) ∧
    ∀ {event : RawEvent} {encoding : BlobEncoding} {tag : String} {number : BlobNumber}
      {spot : Spot} {bare quoted : String} {blob : Blob},
      encoding.NamedBy tag → spot.IsFor number.key number.column.index →
      encoding.Spells bare (spot.fill (.numeral n)) →
      encoding.Spells quoted (spot.fill (.string s)) → encoding.decode bare = .ok blob →
        ∃ x, number.get blob = some x ∧
          validate (event.withBlob tag bare) = blob.check event.payload ∧
          validate (event.withBlob tag quoted) =
            (number.set blob (some n.rounded)).check event.payload ∧
          (n.IsCountable → n.QuotedAs x n.rounded ∧
            (n.RoundsOnce →
              validate (event.withBlob tag quoted) = validate (event.withBlob tag bare))) := by
  constructor
  · intro room bare quoted number hbare hquoted hnumber
    rw [decode_written _ hbare, readLenientNumber_numeral_iff] at hnumber
    obtain ⟨quantity, hquantity, hnumber⟩ := hnumber
    refine ⟨quantity.toFloat, hnumber, ?_, n.quotedAs hquantity⟩
    rw [decode_written _ hquoted, h.readLenientNumber]
  · intro event encoding tag number spot bare quoted blob htag hspot hbare hquoted hdecode
    obtain ⟨quantity, hquantity, hnumber, hdecode'⟩ :=
      BlobEncoding.decode_quoted h hspot hbare hquoted hdecode
    have hvalidate : validate (event.withBlob tag bare) = blob.check event.payload := by
      rw [validate_withBlob htag, hdecode]
      rfl
    have hvalidate' : validate (event.withBlob tag quoted) =
        (number.set blob (some n.rounded)).check event.payload := by
      rw [validate_withBlob htag, hdecode']
      rfl
    refine ⟨quantity.toFloat, hnumber, hvalidate, hvalidate', fun hcountable => ?_⟩
    have hquotedAs := n.quotedAs hquantity hcountable
    refine ⟨hquotedAs, fun honce => ?_⟩
    rw [hvalidate, hvalidate', hquotedAs.exact honce, ← hnumber, number.set_get]

/-- An integer that no double holds, put in quotes in a document and as the price of a blob, with a
tab in front of it. -/
theorem accepted_in_quotes_of_integer :
    let n : Numeral := .ofInt 9007199254740993
    let s : Spelling := spell "\t9007199254740993 "
    let spot : Spot := .member [] (spell "price") []
    let event : RawEvent := ⟨⟨"e", "t", "1", "x", "p", 0, 0⟩,
      ⟨"s", "m", "y", 1, 0, none, none, ⟨some "i", 0, []⟩⟩⟩
    let bare := "\x7b\"price\":9007199254740993\x7d"
    let quoted := "\x7b\"price\":\"\\t9007199254740993 \"\x7d"
    s.Quotes n ∧ ItemWritten (.numeral n) "9007199254740993".toList ∧
      ItemWritten (.string s) "\"\\t9007199254740993 \"".toList ∧
      Json.decode (readLenientNumber 127) (utf8Chars "9007199254740993".toList) =
        .ok (some 9007199254740992) ∧
      Json.decode (readLenientNumber 127) (utf8Chars "\"\\t9007199254740993 \"".toList) =
        .ok (some n.rounded) ∧
      n.IsCountable ∧ n.RoundsOnce ∧ n.rounded = 9007199254740992 ∧
      BlobEncoding.json.NamedBy " Json" ∧ spot.IsFor "price" 0 ∧
      BlobEncoding.json.Spells bare (spot.fill (.numeral n)) ∧
      BlobEncoding.json.Spells quoted (spot.fill (.string s)) ∧
      BlobEncoding.json.decode bare = .ok ⟨some 9007199254740992, none, none, none, []⟩ ∧
      validate (event.withBlob " Json" quoted) = validate (event.withBlob " Json" bare) := by
  intro n s spot event bare quoted
  have hinteger : n.integer? = some 9007199254740993 := by decide +kernel
  have hquotes : s.Quotes n :=
    @Spelling.Quotes.intro n s ['\t'] n.chars [' '] (Numeral.wellFormed_ofInt _).written
      (List.forall_mem_singleton.mpr (by decide)) (List.forall_mem_singleton.mpr (by decide))
      (text?_spell _)
  have hcountable : n.IsCountable := nofun
  have honce : n.RoundsOnce := Numeral.roundsOnce_of_integer? hinteger
  have hdouble : (Quantity.integer 9007199254740993).toFloat = 9007199254740992 := by
    decide +kernel
  have hnumber (room : Nat) :
      readLenientNumber room (.numeral n) = .ok (some 9007199254740992) := by
    refine readLenientNumber_numeral_iff.mpr ⟨_, ?_, congrArg some hdouble.symm⟩
    rw [Numeral.quantity?, hinteger]
  have hnumeral : ItemWritten (.numeral n) "9007199254740993".toList :=
    (written_chars (.integer 9007199254740993) (.number trivial)).item
  have hstring : ItemWritten (.string s) "\"\\t9007199254740993 \"".toList :=
    (written_chars (.string "\t9007199254740993 ") (.string _)).item
  have htag : BlobEncoding.json.NamedBy " Json" := BlobEncoding.ofTag?_eq_some_iff.mp rfl
  have hspot : spot.IsFor BlobNumber.price.key BlobNumber.price.column.index :=
    .member (text?_spell _)
  have hbare : BlobEncoding.json.Spells bare (spot.fill (.numeral n)) := by
    refine BlobEncoding.spells_of_written ?_
    dsimp only [bare]
    exact (written_chars (.object [("price", .integer 9007199254740993)])
      (numbers_object_iff.mpr (List.forall_mem_singleton.mpr (.number trivial)))).item
  have hquoted : BlobEncoding.json.Spells quoted (spot.fill (.string s)) := by
    refine BlobEncoding.spells_of_written ?_
    dsimp only [quoted]
    exact (written_chars (.object [("price", .string "\t9007199254740993 ")]) (by simp)).item
  have hdecode : BlobEncoding.json.decode bare =
      .ok ⟨some 9007199254740992, none, none, none, []⟩ :=
    BlobEncoding.decode_price hbare (hnumber Blob.room)
  obtain ⟨hdocument, hblob⟩ := accepted_in_quotes hquotes
  obtain ⟨x, hx, hread, hsame⟩ := hdocument hnumeral hstring
    ((decode_written (readLenientNumber 127) hnumeral).trans (hnumber 127))
  obtain ⟨y, -, -, -, hvalidate⟩ := @hblob event _ _ _ _ _ _ _ htag hspot hbare hquoted hdecode
  refine ⟨hquotes, hnumeral, hstring, (decode_written _ hnumeral).trans (hnumber 127), hread,
    hcountable, honce, ?_, htag, hspot, hbare, hquoted, hdecode, (hvalidate hcountable).2 honce⟩
  rw [(hsame hcountable).exact honce]
  exact (Option.some.inj hx).symm

/-- A numeral with more digits than a double holds. -/
def longNumeral : Numeral := ⟨false, toDigits 123456789, toDigits 12345679, none⟩

/-- The numeral with many digits is written without an exponent. -/
theorem written_longNumeral : longNumeral.Written "123456789.12345679".toList :=
  @Numeral.Written.intro longNumeral _ (isPlainWhole_toDigits 123456789) .none

/-- Without quotes the last of the many digits are not kept. -/
theorem readLenientNumber_longNumeral (room : Nat) :
    readLenientNumber room (.numeral longNumeral) = .ok (some 123456789.1234568) := by
  have hscaled : longNumeral.scaled? = some 123456789.1234568 := by decide +kernel
  refine readLenientNumber_numeral_iff.mpr ⟨.double 123456789.1234568, ?_, rfl⟩
  rw [Numeral.quantity?_eq_scaled (.inl (by decide)), hscaled]
  rfl

/-- A numeral beyond the largest double, and nearer to the next power of two. -/
def largeNumeral : Numeral :=
  ⟨false, toDigits 179769313486231581, [], some ⟨false, toDigits 291⟩⟩

/-- The large numeral is written with an exponent. -/
theorem written_largeNumeral : largeNumeral.Written "179769313486231581e291".toList :=
  @Numeral.Written.intro largeNumeral _ (isPlainWhole_toDigits 179769313486231581)
    (@ExponentWritten.some ⟨false, toDigits 291⟩ _ _ (.inl rfl) .absent (by decide))

/-- Without quotes the large numeral is read as the largest double. -/
theorem readLenientNumber_largeNumeral (room : Nat) :
    readLenientNumber room (.numeral largeNumeral) = .ok (some 1.7976931348623157e308) := by
  have hscaled : largeNumeral.scaled? = some 1.7976931348623157e308 := by decide +kernel
  refine readLenientNumber_numeral_iff.mpr ⟨.double 1.7976931348623157e308, ?_, rfl⟩
  rw [Numeral.quantity?_eq_scaled (.inr (by decide)), hscaled]
  rfl

/-- A number that is another one in quotes, since it has more digits than a double holds, and a
price near the largest double that is refused in quotes. -/
theorem not_same_in_quotes :
    let event : RawEvent := ⟨⟨"e", "t", "1", "x", "p", 0, 0⟩,
      ⟨"s", "m", "y", 1, 0, none, none, ⟨some "i", 0, []⟩⟩⟩
    Json.decode (readLenientNumber 127) (utf8 "123456789.12345679") =
        .ok (some 123456789.1234568) ∧
      Json.decode (readLenientNumber 127) (utf8 "\"123456789.12345679\"") =
        .ok (some 123456789.12345679) ∧
      (123456789.1234568 : Float) ≠ 123456789.12345679 ∧
      validate (event.withBlob "json" "\x7b\"price\":179769313486231581e291\x7d") =
        .ok ⟨"i", "m", "y", some 1.7976931348623157e308, none, none, .ofList ["missing_volume"]⟩ ∧
      validate (event.withBlob "json" "\x7b\"price\":\"179769313486231581e291\"\x7d") =
        .error (.violation .invalidPrice "price inf is not a positive finite number") := by
  intro event
  have htag : BlobEncoding.json.NamedBy "json" := BlobEncoding.ofTag?_eq_some_iff.mp rfl
  have hmember {part : Tree} {cs : List Char} (h : part.Written cs) :
      ItemWritten (Spot.fill (.member [] (spell "price") []) part)
        ('\x7b' :: ("\"price\":".toList ++ cs ++ ['\x7d'])) :=
    (Tree.Written.object (.last (h.member "price"))).item
  have hstring (text : String) : Tree.Written (.string (spell text)) (stringChars text) :=
    .string (written_spell text)
  have hsound {x : Float} (hx : isUsablePrice x = true) :
      (⟨some x, none, none, none, []⟩ : Blob).check event.payload =
        .ok ⟨"i", "m", "y", some x, none, none, .ofList ["missing_volume"]⟩ :=
    @Blob.check_of_sound ⟨some x, none, none, none, []⟩ event.payload "i" rfl (by decide)
      (fun price hprice => Option.some.inj hprice ▸ hx) nofun
  have hbroken {x : Float} (hx : isUsablePrice x = false) :
      (⟨some x, none, none, none, []⟩ : Blob).check event.payload = .error (.violation .invalidPrice
        ("price " ++ shown x ++ " is not a positive finite number")) :=
    @Blob.check_of_unusable_price ⟨some x, none, none, none, []⟩ event.payload "i" x rfl (by decide)
      rfl hx
  refine ⟨?_, ?_, by decide +kernel, ?_, ?_⟩
  · exact (decode_written _ (Tree.Written.numeral written_longNumeral).item).trans
      (readLenientNumber_longNumeral 127)
  · have hrounded : longNumeral.rounded = 123456789.12345679 := by decide +kernel
    refine (decode_written _ (hstring "123456789.12345679").item).trans ?_
    rw [(Spelling.quotes_spell written_longNumeral).readLenientNumber, hrounded]
  · have hbare : BlobEncoding.json.Spells "\x7b\"price\":179769313486231581e291\x7d" _ :=
      BlobEncoding.spells_of_written (hmember (.numeral written_largeNumeral))
    have husable : isUsablePrice 1.7976931348623157e308 = true := by decide +kernel
    rw [validate_withBlob htag, BlobEncoding.decode_price hbare (readLenientNumber_largeNumeral _)]
    exact hsound husable
  · have hquoted : BlobEncoding.json.Spells "\x7b\"price\":\"179769313486231581e291\"\x7d" _ :=
      BlobEncoding.spells_of_written (hmember (hstring "179769313486231581e291"))
    have hrounded : largeNumeral.rounded = 1 / 0 := by decide +kernel
    have hunusable : isUsablePrice (1 / 0) = false := by decide +kernel
    have hshown : shown (1 / 0) = "inf" := by decide +kernel
    rw [validate_withBlob htag, BlobEncoding.decode_price hquoted
      ((Spelling.quotes_spell written_largeNumeral).readLenientNumber _), hrounded]
    refine (hbroken hunusable).trans ?_
    rw [hshown]
    rfl

end MarketFeed
