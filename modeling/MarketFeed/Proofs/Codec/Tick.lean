import MarketFeed.Tick
import MarketFeed.Proofs.Codec.RawEvent
import MarketFeed.Proofs.Issue.Sets
import MarketFeed.Proofs.Number.Roundtrip

/-!
# Ticks come back from their bytes

A tick with a finite price, and with no volume or a finite one, is read back from the bytes it is
published as. All of it is the same but for the price and the volume, which are written with their
shortest decimals and read by scaling: they come back as doubles near them, and as the same doubles
where their decimals are exact. There are prices that do not come back as they were.
-/

namespace MarketFeed

open Json Number

/-! ## Sets of issues -/

namespace IssueSet

/-- Codes are read from their own tree as the set of them. -/
theorem read_tree_codes (codes : List String) :
    IssueSet.read (Value.array (codes.map .string)).tree = .ok (ofList codes) := by
  rw [read, readList_strings]
  rfl

/-- A set of issues is read from its own tree. -/
theorem read_tree (set : IssueSet) : IssueSet.read set.value.tree = .ok set := by
  rw [value, read_tree_codes, set.ofList_codes]

end IssueSet

/-- The word for a status names it. -/
theorem QualityStatus.ofWord?_word (status : QualityStatus) :
    QualityStatus.ofWord? status.word = some status := by
  cases status <;> decide

/-- A quality is read from its own tree. -/
theorem Quality.read_tree (quality : Quality) : Quality.read quality.value.tree = .ok quality := by
  have hread : Quality.fields.read quality.value.tree = .ok (quality.status, quality.issues, ()) :=
    Fields.Gives.read (.member (readWord_tree quality.status.ofWord?_word) <|
      .member quality.issues.read_tree .nil) (by decide)
  rw [Quality.read, hread]
  rfl

/-! ## Price and volume -/

/-- A finite double is read from its own tree as its numeral is. -/
theorem readDouble_of_quantity? {x y : Float} (hx : isFinite x = true)
    (h : (Numeral.ofFloat x).quantity? = some (.double y)) :
    readDouble (finiteValue x).tree = .ok y := by
  have hread : readQuantity (.numeral (Numeral.ofFloat x)) = .ok (.double y) := orFault_eq_ok.mpr h
  rw [finiteValue, if_pos hx, readDouble]
  change (readQuantity (.numeral (Numeral.ofFloat x)) >>= _) = _
  rw [hread]
  rfl

/-- A finite double comes back from its own tree. -/
theorem readDouble_tree {x : Float} (hx : isFinite x = true) :
    ∃ y, readDouble (finiteValue x).tree = .ok y ∧ ComesBackAs x y := by
  obtain ⟨y, hquantity, hback⟩ := quantity?_numeral_ofFloat hx
  exact ⟨y, readDouble_of_quantity? hx hquantity, hback⟩

/-- A double that is finite if it is there comes back from its own tree. -/
theorem readNullable_readDouble_tree {x? : Option Float} (hx : ∀ x ∈ x?, isFinite x = true) :
    ∃ y?, readNullable readDouble (Value.nullable finiteValue x?).tree = .ok y? ∧
      Option.Rel ComesBackAs x? y? := by
  cases x? with
  | none => exact ⟨none, rfl, .none⟩
  | some x =>
    obtain ⟨y, hread, hback⟩ := readDouble_tree (hx x rfl)
    have hnull : (finiteValue x).tree ≠ .null := by
      rw [finiteValue, if_pos (hx x rfl)]
      exact nofun
    exact ⟨some y, readNullable_some hread hnull, .some hback⟩

/-! ## Ticks -/

/-- The quote of a tick is read from its own tree, with the price and the volume that are read. -/
theorem CanonicalPayload.read_tree {p : CanonicalPayload} {price : Float} {volume : Option Float}
    (hprice : readDouble (finiteValue p.price).tree = .ok price)
    (hvolume : readNullable readDouble (Value.nullable finiteValue p.volume).tree = .ok volume) :
    CanonicalPayload.read p.value.tree = .ok { p with price, volume } := by
  have hread : CanonicalPayload.fields.read p.value.tree = .ok
      (p.instrumentId, p.market, p.symbol, p.sourceSystem, p.sequence, price, volume, p.currency,
        p.normalizedAt, p.quality, ()) :=
    Fields.Gives.read (.member (readString_tree _) <| .member (readString_tree _) <|
      .member (readString_tree _) <| .member (readString_tree _) <| .member (readUInt64_tree _) <|
      .member hprice <| .member hvolume <|
      .optional (fun s => readNullable_some (readString_tree s) nofun) rfl <|
      .member (readInt64_tree _) <| .member p.quality.read_tree .nil) (by decide)
  rw [CanonicalPayload.read, hread]
  rfl

/-- The numbers of a tick can be written. -/
theorem CanonicalTick.numbers_value {tick : CanonicalTick}
    (hprice : isFinite tick.payload.price = true)
    (hvolume : ∀ x ∈ tick.payload.volume, isFinite x = true) :
    tick.value.Numbers Quantity.IsFinite := by
  have henvelope := tick.envelope.numbers_value.mono isFinite_of_isInteger
  have hinteger (i : Int) : (Value.integer i).Numbers Quantity.IsFinite := .number trivial
  have hdouble {x : Float} (hx : isFinite x = true) :
      (finiteValue x).Numbers Quantity.IsFinite := by
    rw [finiteValue, if_pos hx]
    exact .number hx
  have hquality : tick.payload.quality.value.Numbers Quantity.IsFinite := by
    simp [Quality.value, IssueSet.value]
  have hpayload : tick.payload.value.Numbers Quantity.IsFinite := by
    simp only [CanonicalPayload.value, numbers_object_iff, List.forall_mem_append,
      List.forall_mem_cons, numbers_optionalMember_iff, numbers_string, numbers_nullable_iff,
      hinteger, hdouble hprice, hquality, List.not_mem_nil, false_imp_iff, implies_true, and_self,
      and_true, true_and]
    exact fun x hx => hdouble (hvolume x hx)
  simp [CanonicalTick.value, henvelope, hpayload]

/-- A tick comes back from the bytes it is published as, with the price and the volume that are read
for its own. -/
theorem CanonicalTick.decode_encode_of_read {tick : CanonicalTick} {price : Float}
    {volume : Option Float} (hprice : isFinite tick.payload.price = true)
    (hvolume : ∀ x ∈ tick.payload.volume, isFinite x = true)
    (hreadPrice : readDouble (finiteValue tick.payload.price).tree = .ok price)
    (hreadVolume : readNullable readDouble (Value.nullable finiteValue tick.payload.volume).tree =
      .ok volume) :
    CanonicalTick.decode tick.encode =
      .ok { tick with payload := { tick.payload with price, volume } } := by
  have hread : CanonicalTick.fields.read tick.value.tree =
      .ok (tick.envelope, { tick.payload with price, volume }, ()) :=
    Fields.Gives.read (.member tick.envelope.read_tree <|
      .member (CanonicalPayload.read_tree hreadPrice hreadVolume) .nil) (by decide)
  rw [CanonicalTick.decode, CanonicalTick.encode,
    decode_text CanonicalTick.read (CanonicalTick.numbers_value hprice hvolume), CanonicalTick.read,
    hread]
  rfl

/-- A tick with a finite price, and with no volume or a finite one, comes back from the bytes it is
published as. All of it is the same but for the price and the volume; these come back as doubles
near them, and as they were where their decimals are exact. -/
theorem CanonicalTick.decode_encode_near (tick : CanonicalTick)
    (hprice : isFinite tick.payload.price = true)
    (hvolume : ∀ x ∈ tick.payload.volume, isFinite x = true) :
    ∃ price volume, CanonicalTick.decode tick.encode =
        .ok { tick with payload := { tick.payload with price, volume } } ∧
      ComesBackAs tick.payload.price price ∧ Option.Rel ComesBackAs tick.payload.volume volume := by
  obtain ⟨price, hreadPrice, hbackPrice⟩ := readDouble_tree hprice
  obtain ⟨volume, hreadVolume, hbackVolume⟩ := readNullable_readDouble_tree hvolume
  exact ⟨price, volume, CanonicalTick.decode_encode_of_read hprice hvolume hreadPrice hreadVolume,
    hbackPrice, hbackVolume⟩

/-- A tick with a given price and a given volume. -/
def CanonicalTick.sample (price : Float) (volume : Option Float) : CanonicalTick where
  envelope := ⟨"id\"\n", "t", "1", "x", "π", -5, 7⟩
  payload := ⟨"A.NYSE", "NYSE", "A", "feed", 18446744073709551615, price, volume, some "USD", 0,
    ⟨.fallback, IssueSet.ofList ["b", "a"]⟩⟩

/-- A tick with the least price above zero and the greatest volume. -/
theorem CanonicalTick.decode_encode_extremes :
    isFinite 5e-324 = true ∧ isFinite 1.7976931348623157e308 = true ∧
      ∃ price volume, CanonicalTick.decode (sample 5e-324 (some 1.7976931348623157e308)).encode =
          .ok (sample price volume) ∧
        ComesBackAs 5e-324 price ∧ Option.Rel ComesBackAs (some 1.7976931348623157e308) volume := by
  have hprice : isFinite 5e-324 = true := by decide +kernel
  have hvolume : isFinite 1.7976931348623157e308 = true := by decide +kernel
  exact ⟨hprice, hvolume, CanonicalTick.decode_encode_near (sample _ _) hprice
    fun x hx => Option.some.inj hx ▸ hvolume⟩

/-- A price of seventeen digits that does not come back: the digits are more than a double holds. -/
theorem CanonicalTick.price_not_kept :
    isFinite 123456789.12345679 = true ∧
      CanonicalTick.decode (sample 123456789.12345679 none).encode =
        .ok (sample 123456789.1234568 none) ∧
      CanonicalTick.decode (sample 123456789.12345679 none).encode ≠
        .ok (sample 123456789.12345679 none) := by
  have hprice : isFinite 123456789.12345679 = true := by decide +kernel
  have hfraction : (Numeral.ofFloat 123456789.12345679).fraction ≠ [] := by decide +kernel
  have hscaled : (Numeral.ofFloat 123456789.12345679).scaled? = some 123456789.1234568 := by
    decide +kernel
  have hread : readDouble (finiteValue 123456789.12345679).tree = .ok 123456789.1234568 := by
    refine readDouble_of_quantity? hprice ?_
    rw [Numeral.quantity?_eq_scaled (.inl hfraction), hscaled]
    rfl
  have hdecode : CanonicalTick.decode (sample 123456789.12345679 none).encode =
      .ok (sample 123456789.1234568 none) :=
    CanonicalTick.decode_encode_of_read hprice nofun hread rfl
  refine ⟨hprice, hdecode, fun hkept => ?_⟩
  have hsame : (123456789.1234568 : Float) = 123456789.12345679 :=
    congrArg (fun tick : CanonicalTick => tick.payload.price)
      (Except.ok.inj (hdecode.symm.trans hkept))
  exact absurd hsame (by decide +kernel)

end MarketFeed
