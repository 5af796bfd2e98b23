import MarketFeed.DeadLetter
import MarketFeed.Proofs.Codec.RawEvent

/-!
# Dead letters come back from their bytes

Whatever a dead letter says, it is read back from the bytes it is published as. A place that is not
known is left out, and an envelope that is not known is null; both mean the same when they are read.
-/

namespace MarketFeed

open Json Number

/-- The word for an error code names it. -/
theorem ErrorCode.ofWord?_word (code : ErrorCode) : ErrorCode.ofWord? code.word = some code := by
  cases code <;> decide

/-- A place is read from its own tree. -/
theorem Coordinates.read_tree (c : Coordinates) : Coordinates.read c.value.tree = .ok c := by
  have hread : Coordinates.fields.read c.value.tree = .ok (c.topic, c.partition, c.offset, ()) :=
    Fields.Gives.read (.member (readString_tree _) <| .member (readInt32_tree _) <|
      .member (readInt64_tree _) .nil) (by decide)
  rw [Coordinates.read, hread]
  rfl

/-- What is known about a failure is read from its own tree. -/
theorem DeadLetterMetadata.read_tree (m : DeadLetterMetadata) :
    DeadLetterMetadata.read m.value.tree = .ok m := by
  have hread : DeadLetterMetadata.fields.read m.value.tree =
      .ok (m.issue, m.detail, m.retryCount, m.source, ()) := by
    rw [DeadLetterMetadata.value, ← List.append_nil (optionalMember _ _ _)]
    exact Fields.Gives.read (.member (readString_tree _) <| .member (readString_tree _) <|
      .member (readUInt32_tree _) <|
      .optional (fun c => readNullable_some c.read_tree nofun) rfl .nil) (by decide)
  rw [DeadLetterMetadata.read, hread]
  rfl

/-- A dead letter is read from its own tree. -/
theorem DeadLetter.read_tree (letter : DeadLetter) :
    DeadLetter.read letter.value.tree = .ok letter := by
  have hread : DeadLetter.fields.read letter.value.tree = .ok (letter.id, letter.eventId,
      letter.code, letter.metadata, letter.envelope, letter.failedAt, ()) :=
    Fields.Gives.read (.member (readString_tree _) <| .member (readString_tree _) <|
      .member (readWord_tree letter.code.ofWord?_word) <| .member letter.metadata.read_tree <|
      .member (readNullable_tree fun e _ => ⟨e.read_tree, nofun⟩) <|
      .member (readInt64_tree _) .nil) (by decide)
  rw [DeadLetter.read, hread]
  rfl

/-- The numbers of a dead letter are integers. -/
theorem DeadLetter.numbers_value (letter : DeadLetter) :
    letter.value.Numbers Quantity.IsInteger := by
  have hmetadata : letter.metadata.value.Numbers Quantity.IsInteger := by
    rw [DeadLetterMetadata.value, numbers_object_iff, List.forall_mem_append,
      numbers_optionalMember_iff]
    exact ⟨by simp, fun c _ => by simp [Coordinates.value]⟩
  simp [DeadLetter.value, hmetadata]

/-- A dead letter comes back from the bytes it is published as. -/
theorem DeadLetter.decode_encode (letter : DeadLetter) :
    DeadLetter.decode letter.encode = .ok letter := by
  rw [DeadLetter.decode, DeadLetter.encode,
    decode_text DeadLetter.read (letter.numbers_value.mono isFinite_of_isInteger)]
  exact letter.read_tree

end MarketFeed
