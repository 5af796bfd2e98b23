import MarketFeed.Event
import MarketFeed.Proofs.Json.Reread

/-!
# Raw events come back from their bytes

An event that was read, in whatever form, has metadata with the keys of the connector in ascending
order, none of them one of the known keys, and nested no deeper than a document allows. Those are
the events that come back from the bytes they are published as: the known fields are written under
their names, what is missing is left out or was filled in when it was read, and the keys of the
connector stand behind the known ones.
-/

namespace MarketFeed

open Json Number

/-- An envelope is read from its own tree. -/
theorem Envelope.read_tree (e : Envelope) : Envelope.read e.value.tree = .ok e := by
  have hread : Envelope.fields.read e.value.tree = .ok (e.eventId, e.traceId, e.schemaVersion,
      e.tenantId, e.producer, e.occurredAt, e.ingestedAt, ()) :=
    Fields.Gives.read (.member (readString_tree _) <| .member (readString_tree _) <|
      .member (readString_tree _) <| .member (readString_tree _) <|
      .member (readString_tree _) <| .member (readInt64_tree _) <|
      .member (readInt64_tree _) .nil) (by decide)
  change (Envelope.fields.read e.value.tree >>= _) = _
  rw [hread]
  rfl

/-- The metadata are such as are read: the keys of the connector are in order, none is a known one,
and their values, if there is no double among them, are nested no deeper than there is room. -/
structure RawMetadata.Settled (m : RawMetadata) : Prop where
  kept : Kept RawMetadata.room m.extra
  foreign : ∀ member ∈ m.extra, member.1 ∉ RawMetadata.fields.keys

/-- Metadata that are such as are read are read from their own tree, if the connector put no double
into them. -/
theorem RawMetadata.Settled.read_tree {m : RawMetadata} (h : m.Settled)
    (hnumbers : ∀ member ∈ m.extra, member.2.Numbers Quantity.IsInteger) :
    RawMetadata.read m.value.tree = .ok m := by
  have hgives : RawMetadata.fields.Gives (m.instrumentId, m.retryCount, ())
      (optionalMember "instrument_id" .string m.instrumentId ++
        [("retry_count", .integer m.retryCount.toNat)]) :=
    .optional (fun s => readNullable_some (readString_tree s) nofun) rfl <|
    .member (readUInt32_tree _) .nil
  have hread := hgives.readOpen (by decide) h.foreign (h.kept.members hnumbers)
  have hvalue : m.value = .object (optionalMember "instrument_id" .string m.instrumentId ++
      [("retry_count", .integer m.retryCount.toNat)] ++ m.extra) := by
    rw [RawMetadata.value, List.append_assoc]
    rfl
  rw [RawMetadata.read, hvalue, hread]
  rfl

/-- A payload is read from its own tree if its metadata are. -/
theorem RawPayload.read_tree {p : RawPayload}
    (h : RawMetadata.read p.metadata.value.tree = .ok p.metadata) :
    RawPayload.read p.value.tree = .ok p := by
  have hread : RawPayload.fields.read p.value.tree = .ok (p.sourceSystem, p.market, p.symbol,
      p.sequence, p.receivedAt, p.blob, p.encoding, p.metadata, ()) := by
    rw [RawPayload.value, List.append_assoc, List.append_assoc]
    exact Fields.Gives.read (.member (readString_tree _) <| .member (readString_tree _) <|
      .member (readString_tree _) <| .member (readUInt64_tree _) <|
      .member (readInt64_tree _) <|
      .optional (fun s => readNullable_some (readString_tree s) nofun) rfl <|
      .optional (fun s => readNullable_some (readString_tree s) nofun) rfl <|
      .member h .nil) (by decide)
  rw [RawPayload.read, hread]
  rfl

/-- An event is read from its own tree if its metadata are. -/
theorem RawEvent.read_tree {event : RawEvent} (h : RawMetadata.read
    event.payload.metadata.value.tree = .ok event.payload.metadata) :
    RawEvent.read event.value.tree = .ok event := by
  have hread : RawEvent.fields.read event.value.tree = .ok (event.envelope, event.payload, ()) :=
    Fields.Gives.read (.member event.envelope.read_tree <|
      .member (RawPayload.read_tree h) .nil) (by decide)
  rw [RawEvent.read, hread]
  rfl

/-! ## Events that were read -/

/-- Metadata that were read are such as are read. -/
theorem RawMetadata.settled_of_read {tree : Tree} {m : RawMetadata}
    (h : RawMetadata.read tree = .ok m) : m.Settled := by
  obtain ⟨⟨⟨instrumentId, retryCount, _⟩, extra⟩, hread, h⟩ := bind_eq_ok.mp h
  cases h
  obtain ⟨hkept, hforeign⟩ := kept_of_readOpen hread
  exact ⟨hkept, hforeign⟩

/-- Metadata that are left out are such as are read. -/
theorem RawMetadata.settled_default : RawMetadata.Settled ⟨none, 0, []⟩ := ⟨.nil _, nofun⟩

/-- A payload that was read has metadata such as are read. -/
theorem RawPayload.settled_of_read {tree : Tree} {p : RawPayload}
    (h : RawPayload.read tree = .ok p) : p.metadata.Settled := by
  obtain ⟨row, hread, h⟩ := bind_eq_ok.mp h
  obtain ⟨sourceSystem, market, symbol, sequence, receivedAt, blob, encoding, metadata, _⟩ := row
  cases h
  obtain ⟨-, -, -, -, -, -, -, hmetadata, -⟩ := Fields.came_of_read hread
  rcases hmetadata with ⟨part, hpart⟩ | habsent
  · exact RawMetadata.settled_of_read hpart
  · cases habsent
    exact RawMetadata.settled_default

/-- An event that was read has metadata such as are read. -/
theorem RawEvent.settled_of_decode {bytes : Bytes} {event : RawEvent}
    (h : RawEvent.decode bytes = .ok event) : event.payload.metadata.Settled := by
  obtain ⟨root, -, hread⟩ := of_decode h
  obtain ⟨⟨envelope, payload, _⟩, hrow, hread⟩ := bind_eq_ok.mp hread
  cases hread
  obtain ⟨-, ⟨part, hpart⟩ | habsent, -⟩ := Fields.came_of_read hrow
  · exact RawPayload.settled_of_read hpart
  · cases habsent

/-! ## Bytes -/

/-- The numbers of an envelope are integers. -/
@[simp] theorem Envelope.numbers_value (e : Envelope) : e.value.Numbers Quantity.IsInteger := by
  simp [Envelope.value]

/-- The numbers of an event are integers if the connector put no double into its metadata. -/
theorem RawEvent.numbers_value {event : RawEvent}
    (h : ∀ member ∈ event.payload.metadata.extra, member.2.Numbers Quantity.IsInteger) :
    event.value.Numbers Quantity.IsInteger := by
  have hmetadata : event.payload.metadata.value.Numbers Quantity.IsInteger := by
    rw [RawMetadata.value, numbers_object_iff, List.forall_mem_append, List.forall_mem_cons]
    exact ⟨numbers_optionalMember_iff.mpr (by simp), numbers_integer _, h⟩
  have hpayload : event.payload.value.Numbers Quantity.IsInteger := by
    simp only [RawPayload.value, numbers_object_iff, List.forall_mem_append, List.forall_mem_cons,
      numbers_optionalMember_iff, numbers_string, numbers_integer, hmetadata, List.not_mem_nil,
      false_imp_iff, implies_true, and_self]
  simp [RawEvent.value, hpayload]

/-- An event that was read, in whatever form, comes back from the bytes it is published as, and with
it every key and value that the connector put beside the known metadata, if no number among them is
a double. -/
theorem RawEvent.decode_encode_of_decode {bytes : Bytes} {event : RawEvent}
    (h : RawEvent.decode bytes = .ok event)
    (hnumbers : ∀ member ∈ event.payload.metadata.extra, member.2.Numbers Quantity.IsInteger) :
    RawEvent.decode event.encode = .ok event := by
  have hsettled := RawEvent.settled_of_decode h
  have hfinite := (RawEvent.numbers_value hnumbers).mono isFinite_of_isInteger
  rw [RawEvent.decode, RawEvent.encode, decode_text RawEvent.read hfinite]
  exact RawEvent.read_tree (hsettled.read_tree hnumbers)

/-- An event in the form of arrays, with an unknown key, fields left out, and keys of the connector
out of order. -/
theorem RawEvent.decode_encode_of_arrays :
    ∃ event, RawEvent.decode (utf8 ("[[\"id\",\"t\",\"1\",\"x\",\"p\",-5,7]," ++
        "\x7b\"symbol\":\"A\",\"later\":[1.5],\"metadata\":\x7b\"venue\":\x7b\"b\":[1,-2]," ++
        "\"a\":null\x7d,\"retry_count\":3,\"desk\":\"\\u00e9\"\x7d\x7d]")) = .ok event ∧
      event.payload.metadata.extra.map Prod.fst = ["desk", "venue"] ∧
      (∀ member ∈ event.payload.metadata.extra, member.2.Numbers Quantity.IsInteger) ∧
      RawEvent.decode event.encode = .ok event := by
  generalize hbytes : utf8 _ = bytes
  have hread : (RawEvent.decode bytes).toOption.any (fun event =>
      decide (event.payload.metadata.extra.map Prod.fst = ["desk", "venue"] ∧
        ∀ member ∈ event.payload.metadata.extra, member.2.Numbers Quantity.IsInteger)) = true := by
    subst hbytes
    decide +kernel
  cases hdecode : RawEvent.decode bytes with
  | error fault => simp [hdecode, Except.toOption] at hread
  | ok event =>
    rw [hdecode] at hread
    obtain ⟨hkeys, hnumbers⟩ := of_decide_eq_true hread
    exact ⟨event, rfl, hkeys, hnumbers, RawEvent.decode_encode_of_decode hdecode hnumbers⟩

end MarketFeed
