import MarketFeed.Proofs.Json.Members
import MarketFeed.Proofs.Json.Reread
import MarketFeed.Proofs.Pipeline.Encoding

/-!
# The members of a blob

A blob in the form of an object is read for the members it has under the five keys of a blob. Their
order makes no difference, and members under other keys are skipped, whatever their values are: they
only have to be written as values are. A key has to be a text, though, so the units in it that are
given by number must pair up; in a value that is skipped they need not.
-/

namespace MarketFeed

open Json

/-- The keys of a blob. -/
theorem Blob.keys_fields :
    Blob.fields.keys = ["price", "volume", "currency", "instrument_id", "issues"] := rfl

/-- A blob is read from an object with its members in another order and foreign ones among them as
it is read from the object itself. -/
theorem Blob.read_rearranged {members members' others : List Member}
    (hperm : members'.Perm (members ++ others)) (hothers : Blob.fields.Foreign others)
    {blob : Blob} :
    Blob.read (.object members' true) = .ok blob ↔ Blob.read (.object members true) = .ok blob := by
  unfold Blob.read
  rw [bind_eq_ok, bind_eq_ok]
  exact exists_congr fun row =>
    and_congr_left' (hothers.read_object_iff (by decide) hperm)

/-- A blob is not read from an object with two values under a key of a blob. -/
theorem Blob.read_twice {members : List Member} {key : String} (hkey : key ∈ Blob.fields.keys)
    (htwice : 2 ≤ (valuesUnder key members).length) (blob : Blob) :
    Blob.read (.object members true) ≠ .ok blob := by
  intro hread
  obtain ⟨row, hrow, -⟩ := bind_eq_ok.mp hread
  obtain ⟨-, -, hfinds⟩ := (Fields.read_object_iff (by decide)).mp hrow
  exact absurd (hfinds.length_le_one key hkey) (by omega)

/-- The text of a document under a tag for documents is held to the contract with what its tree
says. -/
theorem validate_written {tag text : String} (htag : BlobEncoding.json.NamedBy tag) {tree : Tree}
    (h : ItemWritten tree text.toList) (event : RawEvent) :
    validate (event.withBlob tag text) = match Blob.read tree with
      | .ok blob => blob.check event.payload
      | .error fault =>
        .error (.schema ("raw_payload could not be decoded: " ++ fault.message)) := by
  have hread : Json.decode Blob.read (utf8 text) = Blob.read tree := decode_written Blob.read h
  have hvalidate := validate_json htag event text
  rw [hread] at hvalidate
  exact hvalidate

/-- Take the text of an object for the blob of an event, and the text of an object with the same
members in any order and any others among them, under keys that are texts but no keys of a blob. If
the first one is accepted, the second one is accepted with the same quote; if the first one is
refused, so is the second one; and both are refused if a key of a blob is given twice. -/
theorem validate_rearranged (event : RawEvent) {tag text text' : String}
    (htag : BlobEncoding.json.NamedBy tag) {members members' others : List Member}
    (htext : ItemWritten (.object members true) text.toList)
    (htext' : ItemWritten (.object members' true) text'.toList)
    (hperm : members'.Perm (members ++ others))
    (hothers : ∀ member ∈ others, ∃ key, member.1.text? = some key ∧
      key ∉ ["price", "volume", "currency", "instrument_id", "issues"]) :
    (∀ quote, validate (event.withBlob tag text) = .ok quote →
      validate (event.withBlob tag text') = .ok quote) ∧
    (∀ error, validate (event.withBlob tag text) = .error error →
      ∃ error', validate (event.withBlob tag text') = .error error') ∧
    (∀ key ∈ ["price", "volume", "currency", "instrument_id", "issues"],
      2 ≤ (valuesUnder key members).length →
        (∃ error, validate (event.withBlob tag text) = .error error) ∧
          ∃ error, validate (event.withBlob tag text') = .error error) := by
  rw [← Blob.keys_fields] at hothers ⊢
  have hsame (blob : Blob) : Blob.read (.object members' true) = .ok blob ↔
      Blob.read (.object members true) = .ok blob := Blob.read_rearranged hperm hothers
  have hvalidate := validate_written htag htext event
  have hvalidate' := validate_written htag htext' event
  cases hread : Blob.read (.object members true) with
  | ok blob =>
    rw [hread] at hvalidate
    rw [(hsame blob).mpr hread] at hvalidate'
    rw [hvalidate, hvalidate']
    exact ⟨fun _ => id, fun error herror => ⟨error, herror⟩,
      fun key hkey htwice => absurd hread (Blob.read_twice hkey htwice blob)⟩
  | error fault =>
    rw [hread] at hvalidate
    obtain ⟨fault', hread'⟩ : ∃ fault', Blob.read (.object members' true) = .error fault' := by
      cases hread' : Blob.read (.object members' true) with
      | error fault' => exact ⟨fault', rfl⟩
      | ok blob => cases hread.symm.trans ((hsame blob).mp hread')
    rw [hread'] at hvalidate'
    rw [hvalidate, hvalidate']
    exact ⟨nofun, fun _ _ => ⟨_, rfl⟩, fun _ _ _ => ⟨⟨_, rfl⟩, _, rfl⟩⟩

/-- A blob with its members exchanged, one among them that is foreign and nests further values, and
white space around it. -/
theorem validate_rearranged_of_nested :
    let event : RawEvent := ⟨⟨"e", "t", "1", "x", "p", 0, 0⟩,
      ⟨"s", "m", "y", 1, 0, none, none, ⟨some "i", 0, []⟩⟩⟩
    let text := "\x7b\"currency\":\"USD\",\"issues\":[\"late\"]\x7d"
    let text' :=
      " \x7b\"issues\":[\"late\"],\"desk\":\x7b\"a\":[null,[]]\x7d,\"currency\":\"USD\"\x7d\n"
    let currency : Member := (spell "currency", .string (spell "USD"))
    let issues : Member := (spell "issues", .array [.string (spell "late")] true)
    let desk : Member :=
      (spell "desk", .object [(spell "a", .array [.null, .array [] true] true)] true)
    let quote : Quote :=
      ⟨"i", "m", "y", none, none, some "USD", .ofList ["late", "missing_volume"]⟩
    BlobEncoding.json.NamedBy " Json" ∧
      ItemWritten (.object [currency, issues] true) text.toList ∧
      ItemWritten (.object [issues, desk, currency] true) text'.toList ∧
      [issues, desk, currency].Perm ([currency, issues] ++ [desk]) ∧
      (∀ member ∈ [desk], ∃ key, member.1.text? = some key ∧
        key ∉ ["price", "volume", "currency", "instrument_id", "issues"]) ∧
      validate (event.withBlob " Json" text) = .ok quote ∧
      validate (event.withBlob " Json" text') = .ok quote := by
  intro event text text' currency issues desk quote
  have htag : BlobEncoding.json.NamedBy " Json" := BlobEncoding.ofTag?_eq_some_iff.mp rfl
  have htext : ItemWritten (.object [currency, issues] true) text.toList := by
    dsimp only [text]
    exact (written_chars (.object [("currency", .string "USD"),
      ("issues", .array [.string "late"])]) (by simp)).item
  have htext' : ItemWritten (.object [issues, desk, currency] true) text'.toList := by
    dsimp only [text']
    exact @ItemWritten.intro _ [' '] _ ['\n'] (by decide) (written_chars (.object
      [("issues", .array [.string "late"]), ("desk", .object [("a", .array [.null, .array []])]),
        ("currency", .string "USD")]) (by simp)) (by decide)
  have hperm : [issues, desk, currency].Perm ([currency, issues] ++ [desk]) :=
    @List.perm_append_comm _ [issues, desk] [currency]
  have hothers : ∀ member ∈ [desk], ∃ key, member.1.text? = some key ∧
      key ∉ ["price", "volume", "currency", "instrument_id", "issues"] := by
    intro member hmember
    obtain rfl := List.mem_singleton.mp hmember
    exact ⟨"desk", text?_spell "desk", by decide⟩
  have hquote : validate (event.withBlob " Json" text) = .ok quote := by
    dsimp only [event, text, quote]
    rfl
  exact ⟨htag, htext, htext', hperm, hothers, hquote,
    (validate_rearranged event htag htext htext' hperm hothers).1 quote hquote⟩

/-- An object without members is accepted. With a member under a key that is none of the five and no
text either, the first unit of a pair alone, it is refused. -/
theorem validate_unpaired_key :
    let event : RawEvent := ⟨⟨"e", "t", "1", "x", "p", 0, 0⟩,
      ⟨"s", "m", "y", 1, 0, none, none, ⟨some "i", 0, []⟩⟩⟩
    let member : Member := ([.unit 0xD800], .null)
    ItemWritten (.object [] true) "\x7b\x7d".toList ∧
      ItemWritten (.object [member] true) "\x7b\"\\ud800\":null\x7d".toList ∧
      (∀ key ∈ ["price", "volume", "currency", "instrument_id", "issues"],
        member.1.text? ≠ some key) ∧
      validate (event.withBlob "json" "\x7b\x7d") =
        .ok ⟨"i", "m", "y", none, none, none, .ofList ["missing_volume"]⟩ ∧
      validate (event.withBlob "json" "\x7b\"\\ud800\":null\x7d") = .error (.schema
        "raw_payload could not be decoded: not a document of the expected shape") := by
  intro event member
  have hkey : Spelling.Written [.unit 0xD800] ['\\', 'u', 'd', '8', '0', '0'] :=
    @Spelling.Written.number _ _ _ _ 13 8 0 0 _ _ (isHexDigit_digitChar (by decide))
      (isHexDigit_digitChar (by decide)) (isHexDigit_digitChar (by decide))
      (isHexDigit_digitChar (by decide)) .nil
  have hmember : MemberWritten member "\"\\ud800\":null".toList :=
    @MemberWritten.intro _ _ [] _ [] _ (by decide) hkey (by decide) Tree.Written.null.item
  refine ⟨(Tree.Written.object (@MembersWritten.none [] (by decide))).item,
    (Tree.Written.object (.last hmember)).item, ?_, ?_, ?_⟩
  · intro key _ htext
    cases htext
  · dsimp only [event]
    rfl
  · dsimp only [event]
    rfl

end MarketFeed
