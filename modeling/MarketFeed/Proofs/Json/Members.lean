import MarketFeed.Proofs.Json.Fields

/-!
# What an object says to a record

A record asks an object for the values under the keys of its fields. If every key of the object can
be read, then the record is read exactly if there is one value under the key of each field, and the
field can read it, or none, and the absence of the field has a meaning.

So the order of the members has no say in what is read, nor have members under other keys, as long
as their keys are texts. What a record has for its first field comes from the member under the key
of it, or from the first item of an array, or else from what the absence of it means. A record of
one field is read from any document that carries a value for it, and any reader may be put in the
place of that field.
-/

namespace MarketFeed.Json

/-! ## Values under a key -/

/-- The values under a key, in the order of the members. -/
def valuesUnder (key : String) (members : List Member) : List Tree :=
  (members.filter fun member => member.1.text? = some key).map Prod.snd

/-- Every key can be read. -/
def Legible (members : List Member) : Prop :=
  ∀ member ∈ members, ∃ name, member.1.text? = some name

/-- Before the first member there is nothing under a key. -/
@[simp] theorem valuesUnder_nil (key : String) : valuesUnder key [] = [] := rfl

/-- A member under the key gives its value. -/
theorem valuesUnder_cons_self {key : String} {member : Member}
    (h : member.1.text? = some key) (rest : List Member) :
    valuesUnder key (member :: rest) = member.2 :: valuesUnder key rest := by
  simp [valuesUnder, h]

/-- A member that is not under the key gives nothing. -/
theorem valuesUnder_cons_of_ne {key : String} {member : Member}
    (h : member.1.text? ≠ some key) (rest : List Member) :
    valuesUnder key (member :: rest) = valuesUnder key rest := by
  simp [valuesUnder, h]

/-- Members in two parts give the values of both. -/
theorem valuesUnder_append (key : String) (members others : List Member) :
    valuesUnder key (members ++ others) = valuesUnder key members ++ valuesUnder key others := by
  simp [valuesUnder]

/-- Members of which none is under the key give nothing. -/
theorem valuesUnder_eq_nil {key : String} {members : List Member}
    (h : ∀ member ∈ members, member.1.text? ≠ some key) : valuesUnder key members = [] := by
  simpa [valuesUnder] using h

/-- In another order the members give the same values, in another order. -/
theorem valuesUnder_perm {members members' : List Member} (h : members.Perm members')
    (key : String) : (valuesUnder key members).Perm (valuesUnder key members') :=
  (h.filter _).map _

/-- Every key can be read if the first one can and all others can. -/
theorem legible_cons_iff {member : Member} {rest : List Member} :
    Legible (member :: rest) ↔ (∃ name, member.1.text? = some name) ∧ Legible rest :=
  List.forall_mem_cons

/-! ## Slots -/

/-- How a slot goes on with the values under the key of its field: with no value it stays as it is,
and an empty one takes a single value that the field can read. -/
inductive RecordField.Fills {α : Type} (f : RecordField α) : Option α → List Tree → Option α → Prop
  | stay (slot : Option α) : Fills f slot [] slot
  | take {part : Tree} {a : α} (h : f.read part = .ok a) : Fills f none [part] (some a)

/-- The value a field has by the values under its key. -/
inductive RecordField.Finds {α : Type} (f : RecordField α) : List Tree → α → Prop
  | there {part : Tree} {a : α} (h : f.read part = .ok a) : Finds f [part] a
  | absent {a : α} (h : f.absence.inObject? = some a) : Finds f [] a

namespace RecordField

variable {α : Type} {f : RecordField α}

/-- A slot with a value for it is empty, and its field can read the value. -/
theorem Fills.of_cons {slot slot' : Option α} {part : Tree} {parts : List Tree}
    (h : f.Fills slot (part :: parts) slot') : slot = none ∧ ∃ a, f.read part = .ok a := by
  cases h with
  | take h => exact ⟨rfl, _, h⟩

/-- An empty slot that takes its first value is full for all others. -/
theorem fills_none_cons_iff {part : Tree} {a : α} (h : f.read part = .ok a) {parts : List Tree}
    {slot : Option α} : f.Fills none (part :: parts) slot ↔ f.Fills (some a) parts slot := by
  constructor
  · rintro ⟨⟩
    rename_i b hb
    obtain rfl : a = b := Except.ok.inj (h.symm.trans hb)
    exact .stay _
  · rintro ⟨⟩
    exact .take h

/-- What an empty slot is filled with, or else the absence of the field, is the value it has. -/
theorem exists_fills_iff {parts : List Tree} {a : α} :
    (∃ slot, f.Fills none parts slot ∧ (slot <|> f.absence.inObject?) = some a) ↔
      f.Finds parts a := by
  constructor
  · rintro ⟨slot, hfills, hvalue⟩
    cases hfills with
    | stay => exact .absent hvalue
    | take h =>
      cases hvalue
      exact .there h
  · rintro (h | h)
    · exact ⟨some a, .take h, rfl⟩
    · exact ⟨none, .stay none, h⟩

/-- A field whose absence is a fault has the one value under its key. -/
theorem finds_iff_of_fault (h : f.absence = .fault) {parts : List Tree} {a : α} :
    f.Finds parts a ↔ ∃ part, parts = [part] ∧ f.read part = .ok a := by
  constructor
  · rintro (hread | habsent)
    · exact ⟨_, rfl, hread⟩
    · rw [h] at habsent
      cases habsent
  · rintro ⟨part, rfl, hread⟩
    exact .there hread

/-- A field with a value has at most one value under its key. -/
theorem Finds.length_le_one {parts : List Tree} {a : α} (h : f.Finds parts a) :
    parts.length ≤ 1 := by
  cases h with
  | there => exact Nat.le_refl 1
  | absent => exact Nat.zero_le 1

/-- The order of the values has no say, since there is one at most. -/
theorem Finds.of_perm {parts parts' : List Tree} {a : α} (h : f.Finds parts a)
    (hperm : parts.Perm parts') : f.Finds parts' a := by
  cases h with
  | there hread =>
    rw [← List.singleton_perm.mp hperm]
    exact .there hread
  | absent habsent =>
    rw [List.nil_perm.mp hperm]
    exact .absent habsent

end RecordField

/-! ## Objects -/

namespace Fields

variable {α : Type} {αs : List Type} {f : RecordField α} {fs : Fields αs}

/-- Every field has its value by the values under its key. -/
def Finds : {αs : List Type} → Fields αs → List Member → Row αs → Prop
  | _, .nil, _, _ => True
  | _, .cons f fs, members, (a, row) => f.Finds (valuesUnder f.key members) a ∧ fs.Finds members row

/-- A value under a key that is no field is skipped. -/
theorem put_of_not_mem {key : String} (h : key ∉ fs.keys) (tree : Tree) (slots : Slots αs) :
    fs.put key tree slots = .ok slots := by
  rw [put, place?_eq_none h]
  rfl

/-- The members of an object are taken up if the first one is and then all others are. -/
theorem placeAll_cons_eq_ok {slots slots' : Slots αs} {member : Member} {rest : List Member} :
    fs.placeAll slots (member :: rest) = .ok slots' ↔
      ∃ name between, member.1.text? = some name ∧ fs.put name member.2 slots = .ok between ∧
        fs.placeAll between rest = .ok slots' := by
  rw [placeAll_cons, bind_eq_ok]
  simp only [take, bind_eq_ok, Spelling.read_eq_ok]
  constructor
  · rintro ⟨between, ⟨name, hname, hput⟩, hrest⟩
    exact ⟨name, between, hname, hput, hrest⟩
  · rintro ⟨name, between, hname, hput, hrest⟩
    exact ⟨between, ⟨name, hname, hput⟩, hrest⟩

/-- The members of an object are taken up by the first field, from the values under its key, and by
the other fields, which have other keys. -/
theorem placeAll_cons_iff (hkey : f.key ∉ fs.keys) {members : List Member} {slot slot' : Option α}
    {slots slots' : Slots αs} :
    (Fields.cons f fs).placeAll (slot, slots) members = .ok (slot', slots') ↔
      f.Fills slot (valuesUnder f.key members) slot' ∧ fs.placeAll slots members = .ok slots' := by
  induction members generalizing slot slots with
  | nil =>
    constructor
    · intro h
      cases h
      exact ⟨.stay _, rfl⟩
    · rintro ⟨⟨⟩, h⟩
      cases h
      rfl
  | cons member rest ih =>
    refine placeAll_cons_eq_ok.trans ?_
    rw [placeAll_cons_eq_ok]
    constructor
    · rintro ⟨name, between, hname, hput, hrest⟩
      rcases of_put_cons hput with ⟨rfl, rfl, a, hread, rfl⟩ | ⟨hne, slots₁, hothers, rfl⟩
      · obtain ⟨hfills, hrest⟩ := ih.mp hrest
        rw [valuesUnder_cons_self hname, RecordField.fills_none_cons_iff hread]
        exact ⟨hfills, f.key, slots, hname, put_of_not_mem hkey _ _, hrest⟩
      · obtain ⟨hfills, hrest⟩ := ih.mp hrest
        rw [valuesUnder_cons_of_ne (by simpa [hname] using hne)]
        exact ⟨hfills, name, slots₁, hname, hothers, hrest⟩
    · rintro ⟨hfills, name, between, hname, hput, hrest⟩
      by_cases heq : name = f.key
      · subst heq
        rw [put_of_not_mem hkey] at hput
        obtain rfl := Except.ok.inj hput
        rw [valuesUnder_cons_self hname] at hfills
        obtain ⟨rfl, a, hread⟩ := hfills.of_cons
        rw [RecordField.fills_none_cons_iff hread] at hfills
        refine ⟨f.key, (some a, slots), hname, ?_, ih.mpr ⟨hfills, hrest⟩⟩
        rw [put_key, hread]
        rfl
      · rw [valuesUnder_cons_of_ne (by simpa [hname] using heq)] at hfills
        refine ⟨name, (slot, between), hname, ?_, ih.mpr ⟨hfills, hrest⟩⟩
        rw [put_of_ne heq, hput]
        rfl

/-- A record without fields only reads the keys. -/
theorem placeAll_nil_iff {members : List Member} :
    Fields.nil.placeAll () members = .ok () ↔ Legible members := by
  induction members with
  | nil => exact ⟨fun _ => nofun, fun _ => rfl⟩
  | cons member rest ih =>
    refine placeAll_cons_eq_ok.trans ?_
    rw [legible_cons_iff, ← ih]
    constructor
    · rintro ⟨name, ⟨⟩, hname, -, hrest⟩
      exact ⟨⟨name, hname⟩, hrest⟩
    · rintro ⟨⟨name, hname⟩, hrest⟩
      exact ⟨name, (), hname, rfl, hrest⟩

/-- The members of an object make a row exactly if every key can be read and every field has its
value. -/
theorem exists_placeAll_iff {αs : List Type} {fs : Fields αs} (hkeys : fs.keys.Nodup)
    {members : List Member} {row : Row αs} :
    (∃ slots, fs.placeAll fs.noSlots members = .ok slots ∧ fs.fill slots = .ok row) ↔
      Legible members ∧ fs.Finds members row := by
  induction fs with
  | nil =>
    constructor
    · rintro ⟨⟨⟩, hplace, -⟩
      exact ⟨placeAll_nil_iff.mp hplace, trivial⟩
    · rintro ⟨hlegible, -⟩
      exact ⟨(), placeAll_nil_iff.mpr hlegible, rfl⟩
  | cons f fs ih =>
    obtain ⟨hkey, hkeys⟩ := List.nodup_cons.mp hkeys
    obtain ⟨a, row⟩ := row
    constructor
    · rintro ⟨⟨slot, slots⟩, hplace, hfill⟩
      obtain ⟨hfills, hplace⟩ := (placeAll_cons_iff hkey).mp hplace
      obtain ⟨hb, hrow⟩ := fill_cons_iff.mp hfill
      obtain ⟨hlegible, hfinds⟩ := (ih hkeys).mp ⟨slots, hplace, hrow⟩
      exact ⟨hlegible, RecordField.exists_fills_iff.mp ⟨slot, hfills, hb⟩, hfinds⟩
    · rintro ⟨hlegible, hfirst, hrest⟩
      obtain ⟨slots, hplace, hrow⟩ := (ih hkeys).mpr ⟨hlegible, hrest⟩
      obtain ⟨slot, hfills, hvalue⟩ := RecordField.exists_fills_iff.mpr hfirst
      exact ⟨(slot, slots), (placeAll_cons_iff hkey).mpr ⟨hfills, hplace⟩,
        fill_cons_iff.mpr ⟨hvalue, hrow⟩⟩

/-- A record is read from an object exactly if the object is whole, every key of it can be read, and
every field of the record has its value by the values under its key. -/
theorem read_object_iff (hkeys : fs.keys.Nodup) {members : List Member} {whole : Bool}
    {row : Row αs} :
    fs.read (.object members whole) = .ok row ↔
      whole = true ∧ Legible members ∧ fs.Finds members row := by
  rw [← exists_placeAll_iff hkeys]
  change (fs.placeAll fs.noSlots members >>= fun slots =>
    if whole then fs.fill slots else .error .unreadable) = _ ↔ _
  rw [bind_eq_ok]
  cases whole <;> simp

/-! ## Order and other members -/

/-- A record has the same values in an object with the same values under the keys of its fields, in
whatever order. -/
theorem Finds.of_perm : {αs : List Type} → {fs : Fields αs} → {members members' : List Member} →
    {row : Row αs} → (∀ key ∈ fs.keys, (valuesUnder key members).Perm (valuesUnder key members')) →
      fs.Finds members row → fs.Finds members' row
  | _, .nil, _, _, _, _, _ => trivial
  | _, .cons f _, _, _, (_, _), hperm, hfinds => by
    obtain ⟨hfirst, hrest⟩ := hfinds
    exact ⟨hfirst.of_perm (hperm f.key List.mem_cons_self),
      Finds.of_perm (fun key hkey => hperm key (List.mem_cons_of_mem _ hkey)) hrest⟩

/-- The members are under keys that can be read, and none of these is a field. -/
def Foreign (fs : Fields αs) (members : List Member) : Prop :=
  ∀ member ∈ members, ∃ name, member.1.text? = some name ∧ name ∉ fs.keys

/-- Members in another order, with foreign ones among them, give the fields the same values. -/
theorem Foreign.valuesUnder_perm {members members' others : List Member} (h : fs.Foreign others)
    (hperm : members'.Perm (members ++ others)) :
    ∀ key ∈ fs.keys, (valuesUnder key members').Perm (valuesUnder key members) := by
  intro key hkey
  have hnone : valuesUnder key others = [] := by
    refine valuesUnder_eq_nil fun member hmember heq => ?_
    obtain ⟨name, hname, hforeign⟩ := h member hmember
    rw [hname] at heq
    exact hforeign (Option.some.inj heq ▸ hkey)
  have hvalues := Json.valuesUnder_perm hperm key
  rwa [valuesUnder_append, hnone, List.append_nil] at hvalues

/-- The keys of members in another order, with foreign ones among them, can be read if those of the
members can. -/
theorem Foreign.legible_iff {members members' others : List Member} (h : fs.Foreign others)
    (hperm : members'.Perm (members ++ others)) : Legible members' ↔ Legible members := by
  have hothers : Legible others := fun member hmember =>
    (h member hmember).imp fun name hname => hname.1
  have hmembers' : Legible members' ↔ Legible (members ++ others) :=
    forall_congr' fun member => imp_congr_left hperm.mem_iff
  rw [hmembers', Legible, List.forall_mem_append]
  exact and_iff_left hothers

/-- A record is read from an object with its members in another order and foreign ones among them as
it is read from the object itself. -/
theorem Foreign.read_object_iff {members members' others : List Member} (h : fs.Foreign others)
    (hkeys : fs.keys.Nodup) (hperm : members'.Perm (members ++ others)) {whole : Bool}
    {row : Row αs} :
    fs.read (.object members' whole) = .ok row ↔ fs.read (.object members whole) = .ok row := by
  have hvalues := h.valuesUnder_perm hperm
  rw [Fields.read_object_iff hkeys, Fields.read_object_iff hkeys, h.legible_iff hperm]
  exact and_congr_right fun _ => and_congr_right fun _ =>
    ⟨.of_perm hvalues, .of_perm fun key hkey => (hvalues key hkey).symm⟩

/-- A field that has a value has not met two. -/
theorem Finds.length_le_one : {αs : List Type} → {fs : Fields αs} → {members : List Member} →
    {row : Row αs} → fs.Finds members row → ∀ key ∈ fs.keys, (valuesUnder key members).length ≤ 1
  | _, .nil, _, _, _ => nofun
  | _, .cons f _, _, (_, _), hfinds => by
    obtain ⟨hfirst, hrest⟩ := hfinds
    intro key hkey
    rcases List.mem_cons.mp hkey with rfl | hkey
    · exact hfirst.length_le_one
    · exact Finds.length_le_one hrest key hkey

end Fields

/-! ## The first field of a record -/

/-- The value under a key of an object. -/
def memberUnder? (key : String) (members : List Member) : Option Tree :=
  (members.find? fun member => member.1.text? = some key).map Prod.snd

/-- The part of a tree that is the first field of a record, under its key in an object. -/
def Tree.firstField? (key : String) : Tree → Option Tree
  | .object members _ => memberUnder? key members
  | .array items _ => items.head?
  | _ => none

/-- The value under a key is the first of the values under it. -/
theorem memberUnder?_eq_head? (key : String) (members : List Member) :
    memberUnder? key members = (valuesUnder key members).head? := by
  rw [valuesUnder, List.head?_map, List.head?_filter]
  rfl

/-- A record that was read has the value of its first field from where the document gives it, and
otherwise from what its absence means. -/
theorem Fields.read_cons {α : Type} {αs : List Type} {f : RecordField α} {fs : Fields αs}
    (hkeys : (Fields.cons f fs).keys.Nodup) {tree : Tree} {a : α} {row : Row αs}
    (h : (Fields.cons f fs).read tree = .ok (a, row)) :
    (∃ part, tree.firstField? f.key = some part ∧ f.read part = .ok a) ∨
      (tree.firstField? f.key = none ∧ f.absence.inObject? = some a) := by
  cases tree with
  | object members whole =>
    obtain ⟨-, -, hfinds, -⟩ := (Fields.read_object_iff hkeys).mp h
    rw [Tree.firstField?, memberUnder?_eq_head?]
    generalize valuesUnder f.key members = parts at hfinds ⊢
    cases hfinds with
    | there hread => exact .inl ⟨_, rfl, hread⟩
    | absent habsent => exact .inr ⟨rfl, habsent⟩
  | array items whole =>
    obtain ⟨-, hitems⟩ := Fields.read_array_iff.mp h
    cases items with
    | nil =>
      have habsence := (Fields.ofItems_nil_iff.mp hitems).1
      exact .inr ⟨rfl, Absence.inObject?_of_inArray? habsence⟩
    | cons item rest => exact .inl ⟨item, rfl, (Fields.ofItems_cons_iff.mp hitems).1⟩
  | _ => cases h

/-! ## Records of one field -/

/-- The tree carries a value for a record of one field: the only value under its key in an object of
which every key can be read, or the only item of an array. -/
inductive Tree.Carries (key : String) : Tree → Tree → Prop
  | member {members : List Member} {part : Tree} (hlegible : Legible members)
      (h : valuesUnder key members = [part]) : Carries key (.object members true) part
  | item (part : Tree) : Carries key (.array [part] true) part

/-- A tree carries at most one value. -/
theorem Tree.Carries.unique {key : String} {part part' tree : Tree} (h : tree.Carries key part)
    (h' : tree.Carries key part') : part = part' := by
  cases h with
  | item =>
    cases h'
    rfl
  | member hlegible hpart =>
    cases h' with
    | member hlegible' hpart' => exact List.singleton_inj.mp (hpart.symm.trans hpart')

/-- A record of one field is read exactly from what carries a value for it that can be read, if the
absence of the field is a fault. -/
theorem Fields.read_single_iff {α : Type} {f : RecordField α} (h : f.absence = .fault) {tree : Tree}
    {a : α} :
    (Fields.cons f .nil).read tree = .ok (a, ()) ↔
      ∃ part, tree.Carries f.key part ∧ f.read part = .ok a := by
  cases tree with
  | object members whole =>
    have hkeys : (Fields.cons f .nil).keys.Nodup := List.nodup_singleton f.key
    refine (Fields.read_object_iff hkeys).trans ?_
    constructor
    · rintro ⟨rfl, hlegible, hfinds, -⟩
      obtain ⟨part, hpart, hread⟩ := (RecordField.finds_iff_of_fault h).mp hfinds
      exact ⟨part, .member hlegible hpart, hread⟩
    · rintro ⟨part, hcarries, hread⟩
      cases hcarries with
      | member hlegible hpart =>
        exact ⟨rfl, hlegible, (RecordField.finds_iff_of_fault h).mpr ⟨part, hpart, hread⟩, trivial⟩
  | array items whole =>
    refine Fields.read_array_iff.trans ?_
    constructor
    · rintro ⟨rfl, hitems⟩
      match items with
      | [] =>
        have habsence := (Fields.ofItems_nil_iff.mp hitems).1
        rw [h] at habsence
        cases habsence
      | [part] => exact ⟨part, .item part, (Fields.ofItems_cons_iff.mp hitems).1⟩
      | part :: second :: rest => cases (Fields.ofItems_cons_iff.mp hitems).2
    · rintro ⟨part, ⟨⟩, hread⟩
      exact ⟨rfl, Fields.ofItems_cons_iff.mpr ⟨hread, rfl⟩⟩
  | _ =>
    constructor
    · intro hread
      cases hread
    · rintro ⟨part, ⟨⟩, -⟩

end MarketFeed.Json
