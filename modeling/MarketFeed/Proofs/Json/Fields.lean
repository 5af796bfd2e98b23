import MarketFeed.Json.Word
import MarketFeed.Proofs.Json.Record
import MarketFeed.Proofs.Json.Written

/-!
# Records come back from their members

A record is written as an object with a member for each of its fields, in order, where a field may
be left out if its absence has a meaning. It is read back if no two fields have the same key. In a
record that keeps other members too, those stand behind the members of the fields, under keys that
are no fields.
-/

namespace MarketFeed.Json

open MarketFeed.Number

/-- The trees of members, one by one. -/
theorem memberTrees_eq_map (members : List (String × Value)) :
    Value.memberTrees members = members.map fun member => (spell member.1, member.2.tree) := by
  induction members with
  | nil => rfl
  | cons member rest ih => rw [Value.memberTrees, ih, List.map_cons]

namespace Fields

/-- The keys of the fields, in order. -/
def keys : {αs : List Type} → Fields αs → List String
  | _, .nil => []
  | _, .cons f fs => f.key :: fs.keys

/-- The members give the fields their values, in order; a field that is left out has its value from
what its absence means. -/
inductive Gives : {αs : List Type} → Fields αs → Row αs → List (String × Value) → Prop
  | nil : Gives .nil () []
  | member {α : Type} {αs : List Type} {f : RecordField α} {fs : Fields αs} {a : α} {row : Row αs}
      {v : Value} {members : List (String × Value)} (hread : f.read v.tree = .ok a)
      (hrest : Gives fs row members) : Gives (.cons f fs) (a, row) ((f.key, v) :: members)
  | absent {α : Type} {αs : List Type} {f : RecordField α} {fs : Fields αs} {a : α} {row : Row αs}
      {members : List (String × Value)} (habsent : f.absence.inObject? = some a)
      (hrest : Gives fs row members) : Gives (.cons f fs) (a, row) members

variable {α : Type} {αs : List Type} {f : RecordField α} {fs : Fields αs}

/-- A member that is left out when its value is missing. -/
theorem Gives.optional {β : Type} {f : RecordField (Option β)} {row : Row αs}
    {members : List (String × Value)} {value : β → Value} {b? : Option β}
    (hread : ∀ b, f.read (value b).tree = .ok (some b)) (habsent : f.absence.inObject? = some none)
    (hrest : fs.Gives row members) :
    (Fields.cons f fs).Gives (b?, row) (optionalMember f.key value b? ++ members) := by
  cases b? with
  | none => exact .absent habsent hrest
  | some b => exact .member (hread b) hrest

/-- The members are under keys of fields. -/
theorem Gives.mem_keys {row : Row αs} {members : List (String × Value)} (h : fs.Gives row members) :
    ∀ member ∈ members, member.1 ∈ fs.keys := by
  induction h with
  | nil => nofun
  | member hread hrest ih =>
    intro member hmember
    rcases List.mem_cons.mp hmember with rfl | hmember
    · exact List.mem_cons_self
    · exact List.mem_cons_of_mem _ (ih member hmember)
  | absent habsent hrest ih =>
    exact fun member hmember => List.mem_cons_of_mem _ (ih member hmember)

/-! ## Members of fields -/

/-- The first member is taken up under its key, if that is one of a field. -/
theorem placeAll_memberTrees_cons (fs : Fields αs) (slots : Slots αs) (key : String) (v : Value)
    (rest : List (String × Value)) :
    fs.placeAll slots (Value.memberTrees ((key, v) :: rest)) =
      ((fs.place? key v.tree slots).getD (.ok slots) >>= fun slots =>
        fs.placeAll slots (Value.memberTrees rest)) := by
  rw [Value.memberTrees, placeAll, read_spell]
  rfl

/-- Members under other keys leave the first field as it is. -/
theorem placeAll_cons_of_ne {slot : Option α} {slots : Slots αs} {members : List (String × Value)}
    (h : ∀ member ∈ members, member.1 ≠ f.key) :
    (Fields.cons f fs).placeAll (slot, slots) (Value.memberTrees members) =
      (fs.placeAll slots (Value.memberTrees members)).map fun slots => (slot, slots) := by
  induction members generalizing slots with
  | nil => rfl
  | cons member rest ih =>
    obtain ⟨key, v⟩ := member
    have hkey : key ≠ f.key := h (key, v) (by simp)
    have hplace : (Fields.cons f fs).place? key v.tree (slot, slots) =
        (fs.place? key v.tree slots).map fun placed => placed.map fun slots => (slot, slots) :=
      if_neg hkey
    refine (placeAll_memberTrees_cons (.cons f fs) (slot, slots) key v rest).trans ?_
    rw [hplace, placeAll_memberTrees_cons]
    cases fs.place? key v.tree slots with
    | none => exact ih fun m hm => h m (by simp [hm])
    | some placed =>
      cases placed with
      | error fault => rfl
      | ok slots' => exact ih fun m hm => h m (by simp [hm])

/-- Members that give the fields their values do so when they are taken up in order. -/
theorem Gives.placeAll {row : Row αs} {members : List (String × Value)} (h : fs.Gives row members)
    (hkeys : fs.keys.Nodup) :
    ∃ slots, fs.placeAll fs.noSlots (Value.memberTrees members) = .ok slots ∧
      fs.fill slots = .ok row := by
  induction h with
  | nil => exact ⟨(), rfl, rfl⟩
  | @member α αs f fs a row v members hread hrest ih =>
    obtain ⟨hnew, hkeys⟩ := List.nodup_cons.mp hkeys
    obtain ⟨slots, hplace, hfill⟩ := ih hkeys
    have hothers : ∀ member ∈ members, member.1 ≠ f.key :=
      fun member hmember heq => hnew (heq ▸ hrest.mem_keys member hmember)
    refine ⟨(some a, slots), ?_, ?_⟩
    · have hfirst : (Fields.cons f fs).place? f.key v.tree (none, fs.noSlots) =
          some (.ok (some a, fs.noSlots)) := by
        rw [place?, if_pos rfl, hread]
        rfl
      refine (placeAll_memberTrees_cons (.cons f fs) (none, fs.noSlots) f.key v members).trans ?_
      rw [hfirst]
      refine (placeAll_cons_of_ne hothers).trans ?_
      rw [hplace]
      rfl
    · change (fs.fill slots >>= fun row => pure (a, row)) = _
      rw [hfill]
      rfl
  | @absent α αs f fs a row members habsent hrest ih =>
    obtain ⟨hnew, hkeys⟩ := List.nodup_cons.mp hkeys
    obtain ⟨slots, hplace, hfill⟩ := ih hkeys
    have hothers : ∀ member ∈ members, member.1 ≠ f.key :=
      fun member hmember heq => hnew (heq ▸ hrest.mem_keys member hmember)
    refine ⟨(none, slots), ?_, ?_⟩
    · refine (placeAll_cons_of_ne hothers).trans ?_
      rw [hplace]
      rfl
    · change (orFault f.absence.inObject? >>= fun a =>
        fs.fill slots >>= fun row => pure (a, row)) = _
      rw [habsent, hfill]
      rfl

/-- A record is read from an object whose members give its fields their values. -/
theorem Gives.read {row : Row αs} {members : List (String × Value)} (h : fs.Gives row members)
    (hkeys : fs.keys.Nodup) : fs.read (Value.object members).tree = .ok row := by
  obtain ⟨slots, hplace, hfill⟩ := h.placeAll hkeys
  change (fs.placeAll fs.noSlots (Value.memberTrees members) >>= fun slots => fs.fill slots) = _
  rw [hplace]
  exact hfill

/-! ## Other members -/

/-- A key of a field is taken up. -/
theorem exists_place? {fs : Fields αs} {key : String} (h : key ∈ fs.keys) (tree : Tree)
    (slots : Slots αs) : ∃ placed, fs.place? key tree slots = some placed := by
  induction fs with
  | nil => cases h
  | cons f fs ih =>
    obtain ⟨slot, slots⟩ := slots
    by_cases hkey : key = f.key
    · exact ⟨_, if_pos hkey⟩
    · obtain ⟨placed, hplaced⟩ := ih ((List.mem_cons.mp h).resolve_left hkey) slots
      exact ⟨_, (if_neg hkey).trans (congrArg _ hplaced)⟩

/-- A key that is no field is not taken up. -/
theorem place?_eq_none {fs : Fields αs} {key : String} (h : key ∉ fs.keys) (tree : Tree)
    (slots : Slots αs) : fs.place? key tree slots = none := by
  induction fs with
  | nil => rfl
  | cons f fs ih =>
    obtain ⟨slot, slots⟩ := slots
    obtain ⟨hkey, hrest⟩ := not_or.mp (List.mem_cons.not.mp h)
    exact (if_neg hkey).trans (congrArg _ (ih hrest slots))

/-- Members of fields in front of others are taken up first. -/
theorem placeRest_append (fs : Fields αs) (room : Nat) {slots : Slots αs}
    {others members : List (String × Value)} (rest : List Member)
    (h : ∀ member ∈ members, member.1 ∈ fs.keys) :
    fs.placeRest room slots others (Value.memberTrees members ++ rest) =
      (fs.placeAll slots (Value.memberTrees members) >>= fun slots =>
        fs.placeRest room slots others rest) := by
  induction members generalizing slots with
  | nil => rfl
  | cons member more ih =>
    obtain ⟨key, v⟩ := member
    obtain ⟨placed, hplaced⟩ := exists_place? (h (key, v) (by simp)) v.tree slots
    rw [placeAll_memberTrees_cons, Value.memberTrees, List.cons_append, placeRest, read_spell]
    dsimp only [bind, Except.bind]
    rw [hplaced]
    cases placed with
    | error fault => rfl
    | ok slots' => exact ih fun m hm => h m (by simp [hm])

/-- Members that are no fields are read as the members of a value are. -/
theorem placeRest_others (fs : Fields αs) (room : Nat) {slots : Slots αs}
    {others members : List (String × Value)} (h : ∀ member ∈ members, member.1 ∉ fs.keys) :
    fs.placeRest room slots others (Value.memberTrees members) =
      (Tree.members room others (Value.memberTrees members)).map fun others => (slots, others) := by
  induction members generalizing others with
  | nil => simp [Value.memberTrees, placeRest, Tree.members, Except.map]
  | cons member more ih =>
    obtain ⟨key, v⟩ := member
    have hnone := place?_eq_none (h (key, v) (by simp)) v.tree slots
    rw [Value.memberTrees, placeRest, Tree.members, read_spell]
    dsimp only [bind, Except.bind]
    rw [hnone]
    cases Tree.value room v.tree with
    | error fault => rfl
    | ok w => exact ih fun m hm => h m (by simp [hm])

/-- A record that keeps other members is read from an object whose members give its fields their
values, with others behind them that are read as they stand. -/
theorem Gives.readOpen {row : Row αs} {members others : List (String × Value)}
    (h : fs.Gives row members) (hkeys : fs.keys.Nodup) {room : Nat}
    (hothers : ∀ member ∈ others, member.1 ∉ fs.keys)
    (hread : Tree.members room [] (Value.memberTrees others) = .ok others) :
    fs.readOpen room (Value.object (members ++ others)).tree = .ok (row, others) := by
  obtain ⟨slots, hplace, hfill⟩ := h.placeAll hkeys
  have hrest : fs.placeRest room fs.noSlots [] (Value.memberTrees (members ++ others)) =
      .ok (slots, others) := by
    have hsplit : Value.memberTrees (members ++ others) =
        Value.memberTrees members ++ Value.memberTrees others := by
      simp only [memberTrees_eq_map, List.map_append]
    rw [hsplit, placeRest_append fs room _ h.mem_keys, hplace]
    change fs.placeRest room slots [] (Value.memberTrees others) = _
    rw [placeRest_others fs room hothers, hread]
    rfl
  change (fs.placeRest room fs.noSlots [] (Value.memberTrees (members ++ others)) >>= _) = _
  rw [hrest]
  change (fs.fill slots >>= fun row => pure (row, others)) = _
  rw [hfill]
  rfl

/-! ## What a row was read from -/

/-- Every value met so far was read by its field. -/
def Met : {αs : List Type} → Fields αs → Slots αs → Prop
  | _, .nil, _ => True
  | _, .cons f fs, (slot, slots) => (∀ a ∈ slot, ∃ tree, f.read tree = .ok a) ∧ Met fs slots

/-- Every value was read by its field, or is what the absence of the field means. -/
def Came : {αs : List Type} → Fields αs → Row αs → Prop
  | _, .nil, _ => True
  | _, .cons f fs, (a, row) =>
    ((∃ tree, f.read tree = .ok a) ∨ f.absence.inObject? = some a) ∧ Came fs row

/-- Before the first member no value was met. -/
theorem met_noSlots : {αs : List Type} → (fs : Fields αs) → fs.Met fs.noSlots
  | _, .nil => trivial
  | _, .cons _ fs => ⟨nofun, met_noSlots fs⟩

/-- A member that is taken up is read by its field. -/
theorem Met.place? : {αs : List Type} → {fs : Fields αs} → {key : String} → {tree : Tree} →
    {slots slots' : Slots αs} → fs.place? key tree slots = some (.ok slots') → fs.Met slots →
      fs.Met slots'
  | _, .nil, _, _, _, _, h, _ => by cases h
  | _, .cons f fs, key, tree, (slot, slots), (slot', slots'), h, hmet => by
    simp only [Fields.place?] at h
    split_ifs at h with hkey
    · cases slot with
      | some a => cases h
      | none =>
        cases hread : f.read tree with
        | error fault => simp [hread, Except.map] at h
        | ok a =>
          simp only [hread, Except.map] at h
          cases h
          refine ⟨fun b hb => ⟨tree, ?_⟩, hmet.2⟩
          rw [hread, Option.some.inj hb]
    · obtain ⟨placed, hplaced, h⟩ := Option.map_eq_some_iff.mp h
      cases placed with
      | error fault => cases h
      | ok slots'' =>
        cases h
        exact ⟨hmet.1, Met.place? hplaced hmet.2⟩

/-- The members of an object are read by their fields. -/
theorem Met.placeAll {slots slots' : Slots αs} {members : List Member}
    (h : fs.placeAll slots members = .ok slots') (hmet : fs.Met slots) : fs.Met slots' := by
  induction members generalizing slots with
  | nil =>
    cases h
    exact hmet
  | cons member rest ih =>
    obtain ⟨key, tree⟩ := member
    obtain ⟨name, -, h⟩ := bind_eq_ok.mp h
    obtain ⟨placed, hplaced, h⟩ := bind_eq_ok.mp h
    refine ih h ?_
    cases hplace : fs.place? name tree slots with
    | none =>
      rw [hplace] at hplaced
      cases hplaced
      exact hmet
    | some result =>
      rw [hplace] at hplaced
      obtain rfl : result = .ok placed := hplaced
      exact hmet.place? hplace

/-- The values of an object were read by their fields, or left out. -/
theorem Met.fill : {αs : List Type} → {fs : Fields αs} → {slots : Slots αs} → {row : Row αs} →
    fs.fill slots = .ok row → fs.Met slots → fs.Came row
  | _, .nil, _, _, _, _ => trivial
  | _, .cons f fs, (slot, slots), (a, row), h, hmet => by
    obtain ⟨ha, hrow⟩ := fill_cons_iff.mp h
    refine ⟨?_, Met.fill hrow hmet.2⟩
    cases slot with
    | none => exact .inr ha
    | some c =>
      cases ha
      exact .inl (hmet.1 a rfl)

/-- The values of an array were read by their fields, or left out. -/
theorem came_of_ofItems : {αs : List Type} → {fs : Fields αs} → {items : List Tree} →
    {row : Row αs} → fs.ofItems items = .ok row → fs.Came row
  | _, .nil, _, _, _ => trivial
  | _, .cons f fs, [], (a, row), h => by
    obtain ⟨habsence, hrow⟩ := ofItems_nil_iff.mp h
    exact ⟨.inr (Absence.inObject?_of_inArray? habsence), came_of_ofItems hrow⟩
  | _, .cons f fs, tree :: rest, (a, row), h => by
    obtain ⟨hread, hrow⟩ := ofItems_cons_iff.mp h
    exact ⟨.inl ⟨tree, hread⟩, came_of_ofItems hrow⟩

/-- The values of a record that was read were read by their fields, or left out. -/
theorem came_of_read {tree : Tree} {row : Row αs} (h : fs.read tree = .ok row) : fs.Came row := by
  cases tree with
  | object members whole =>
    obtain ⟨slots, hplace, h⟩ := bind_eq_ok.mp h
    cases whole with
    | false => cases h
    | true => exact Met.fill h (Met.placeAll hplace fs.met_noSlots)
  | array items whole => exact came_of_ofItems (read_array_iff.mp h).2
  | _ => cases h

end Fields

/-! ## Values of fields -/

/-- A text is read back. -/
@[simp] theorem readString_tree (s : String) : readString (Value.string s).tree = .ok s :=
  read_spell s

/-- An integer between two bounds is read back, if both bounds fit a word. -/
theorem readInteger_tree {least greatest i : Int} (hleast : least ≤ i) (hgreatest : i ≤ greatest)
    (hwords : -(Nat.pow 2 63 : Int) ≤ least ∧ greatest ≤ wordMax) :
    readInteger least greatest (Value.integer i).tree = .ok i := by
  have hword : FitsWord i := ⟨hwords.1.trans hleast, hgreatest.trans hwords.2⟩
  have hquantity : readQuantity (Value.integer i).tree = .ok (.integer i) :=
    orFault_eq_ok.mpr (Numeral.quantity?_ofInt hword)
  rw [readInteger, hquantity]
  exact if_pos ⟨hleast, hgreatest⟩

/-- A signed word of 64 bits is read back. -/
@[simp] theorem readInt64_tree (i : Int64) : readInt64 (Value.integer i.toInt).tree = .ok i := by
  rw [readInt64, readInteger_tree i.minValue_le_toInt i.toInt_le (by decide)]
  exact congrArg Except.ok (Int64.ofInt_toInt i)

/-- A signed word of 32 bits is read back. -/
@[simp] theorem readInt32_tree (i : Int32) : readInt32 (Value.integer i.toInt).tree = .ok i := by
  rw [readInt32, readInteger_tree i.minValue_le_toInt i.toInt_le (by decide)]
  exact congrArg Except.ok (Int32.ofInt_toInt i)

/-- An unsigned word of 64 bits is read back. -/
@[simp] theorem readUInt64_tree (n : UInt64) : readUInt64 (Value.integer n.toNat).tree = .ok n := by
  have hlt := n.toNat_lt
  have hsize : UInt64.size = 2 ^ 64 := rfl
  rw [readUInt64, readInteger_tree (Int.natCast_nonneg _) (by omega) (by decide)]
  exact congrArg Except.ok UInt64.ofNat_toNat

/-- An unsigned word of 32 bits is read back. -/
@[simp] theorem readUInt32_tree (n : UInt32) : readUInt32 (Value.integer n.toNat).tree = .ok n := by
  have hlt := n.toNat_lt
  have hsize : UInt32.size = 2 ^ 32 := rfl
  rw [readUInt32, readInteger_tree (Int.natCast_nonneg _) (by omega) (by decide)]
  exact congrArg Except.ok UInt32.ofNat_toNat

/-- A value that is not written as null is read back where null may stand. -/
theorem readNullable_some {α : Type} {read : Tree → Except Fault α} {tree : Tree} {a : α}
    (h : read tree = .ok a) (hnull : tree ≠ .null) : readNullable read tree = .ok (some a) := by
  cases tree with
  | null => exact absurd rfl hnull
  | _ => exact congrArg (Except.map some) h

/-- A value that may be missing is read back. -/
theorem readNullable_tree {α : Type} {read : Tree → Except Fault α} {value : α → Value}
    {a? : Option α} (h : ∀ a ∈ a?, read (value a).tree = .ok a ∧ (value a).tree ≠ .null) :
    readNullable read (Value.nullable value a?).tree = .ok a? := by
  cases a? with
  | none => rfl
  | some a => exact readNullable_some (h a rfl).1 (h a rfl).2

/-- A word that names something is read as what it names. -/
theorem readWord_tree {α : Type} {ofWord? : String → Option α} {word : String} {a : α}
    (h : ofWord? word = some a) : readWord ofWord? (Value.string word).tree = .ok a := by
  change ((spell word).read >>= fun word => orFault (ofWord? word)) = _
  rw [read_spell]
  exact orFault_eq_ok.mpr h

/-- A list of texts is read back. -/
theorem readList_strings (texts : List String) :
    readList readString (Value.array (texts.map .string)).tree = .ok texts := by
  have hitems : readItems readString (Value.itemTrees (texts.map .string)) = .ok texts := by
    induction texts with
    | nil => rfl
    | cons text rest ih =>
      change (readString (Value.string text).tree >>= _) = _
      rw [readString_tree]
      change (readItems readString (Value.itemTrees (rest.map .string)) >>= _) = _
      rw [ih]
      rfl
  change (readItems readString (Value.itemTrees (texts.map .string)) >>= _) = _
  rw [hitems]
  rfl

end MarketFeed.Json
