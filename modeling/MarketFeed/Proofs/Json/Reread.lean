import MarketFeed.Proofs.Json.Fields

/-!
# Values that were read come back from their text

A value that was read has its members in ascending order of keys, each key once, and is nested no
deeper than there was room. Written and read again with the same room it is the same value: the
members are put in order as they come, so none is moved, and none takes the place of another.

Of the numbers this is said for the integers only. A double need not come back from its text.
-/

namespace MarketFeed.Number

/-- The number is an integer. -/
def Quantity.IsInteger : Quantity → Prop
  | .integer _ => True
  | .double _ => False

instance : DecidablePred Quantity.IsInteger
  | .integer _ => .isTrue trivial
  | .double _ => .isFalse id

end MarketFeed.Number

namespace MarketFeed.Json

open MarketFeed.Number

/-! ## Numbers in values -/

section Numbers

variable {p r : Quantity → Prop}

/-- Null has no numbers. -/
@[simp] theorem numbers_null : Value.Numbers p .null := .null

/-- A text has no numbers. -/
@[simp] theorem numbers_string (s : String) : Value.Numbers p (.string s) := .string s

/-- A number is its only number. -/
@[simp] theorem numbers_number_iff {q : Quantity} : Value.Numbers p (.number q) ↔ p q :=
  ⟨fun h => by cases h; assumption, .number⟩

/-- The numbers of an array are those of its items. -/
@[simp] theorem numbers_array_iff {items : List Value} :
    Value.Numbers p (.array items) ↔ ∀ v ∈ items, v.Numbers p :=
  ⟨fun h => by cases h; assumption, .array⟩

/-- The numbers of an object are those of its members. -/
@[simp] theorem numbers_object_iff {members : List (String × Value)} :
    Value.Numbers p (.object members) ↔ ∀ member ∈ members, member.2.Numbers p :=
  ⟨fun h => by cases h; assumption, .object⟩

/-- A member that may be left out has the numbers of its value, if it is there. -/
theorem numbers_optionalMember_iff {α : Type} {key : String} {value : α → Value}
    {a? : Option α} :
    (∀ member ∈ optionalMember key value a?, member.2.Numbers p) ↔
      ∀ a ∈ a?, (value a).Numbers p := by
  cases a? <;> simp [optionalMember]

/-- A value that may be missing has the numbers of the value, if it is there. -/
@[simp] theorem numbers_nullable_iff {α : Type} {value : α → Value} {a? : Option α} :
    (Value.nullable value a?).Numbers p ↔ ∀ a ∈ a?, (value a).Numbers p := by
  cases a? <;> simp [Value.nullable]

mutual

/-- Whether all numbers of a value have a property that can be decided. -/
def Value.decideNumbers [DecidablePred p] : (v : Value) → Decidable (v.Numbers p)
  | .null => .isTrue .null
  | .bool b => .isTrue (.bool b)
  | .number _ => decidable_of_iff _ numbers_number_iff.symm
  | .string s => .isTrue (.string s)
  | .array items => @decidable_of_iff _ _ numbers_array_iff.symm (Value.decideItems items)
  | .object members => @decidable_of_iff _ _ numbers_object_iff.symm (Value.decideMembers members)

/-- Whether all numbers of items have a property that can be decided. -/
def Value.decideItems [DecidablePred p] :
    (items : List Value) → Decidable (∀ v ∈ items, v.Numbers p)
  | [] => .isTrue nofun
  | v :: rest => @decidable_of_iff _ _ List.forall_mem_cons.symm
      (@instDecidableAnd _ _ (Value.decideNumbers v) (Value.decideItems rest))

/-- Whether all numbers of members have a property that can be decided. -/
def Value.decideMembers [DecidablePred p] :
    (members : List (String × Value)) → Decidable (∀ member ∈ members, member.2.Numbers p)
  | [] => .isTrue nofun
  | (_, v) :: rest => @decidable_of_iff _ _ List.forall_mem_cons.symm
      (@instDecidableAnd _ _ (Value.decideNumbers v) (Value.decideMembers rest))

end

instance [DecidablePred p] : DecidablePred (Value.Numbers p) := Value.decideNumbers

/-- A property of all numbers that another one follows from. -/
theorem Value.Numbers.mono (hpr : ∀ q, p q → r q) {v : Value} (h : v.Numbers p) : v.Numbers r := by
  induction h with
  | null => exact .null
  | bool b => exact .bool b
  | number h => exact .number (hpr _ h)
  | string s => exact .string s
  | array _ ih => exact .array ih
  | object _ ih => exact .object ih

/-- An integer is an integer. -/
@[simp] theorem numbers_integer (i : Int) : (Value.integer i).Numbers Quantity.IsInteger :=
  .number trivial

end Numbers

/-- An integer can be written. -/
theorem isFinite_of_isInteger (q : Quantity) (h : q.IsInteger) : q.IsFinite := by
  cases q with
  | integer i => trivial
  | double x => exact h.elim

/-- With so much room, the value is read from its own tree. -/
def Value.Rereads (room : Nat) (v : Value) : Prop := v.tree.value room = .ok v

/-! ## Members in order -/

/-- The keys of the members are in ascending order, each once. -/
def Ascending (members : List (String × Value)) : Prop :=
  members.Pairwise fun member other => member.1 < other.1

/-- The members with one more are that one and some of the members there before. -/
theorem mem_of_mem_insertMember {key : String} {v : Value} {members : List (String × Value)}
    {member : String × Value} (h : member ∈ insertMember key v members) :
    member = (key, v) ∨ member ∈ members := by
  induction members with
  | nil => exact .inl (List.mem_singleton.mp h)
  | cons first rest ih =>
    obtain ⟨k, w⟩ := first
    rw [insertMember] at h
    split_ifs at h with heq hlt
    · rcases List.mem_cons.mp h with h | h
      · exact .inl h
      · exact .inr (List.mem_cons_of_mem _ h)
    · exact List.mem_cons.mp h
    · rcases List.mem_cons.mp h with rfl | h
      · exact .inr List.mem_cons_self
      · exact (ih h).imp_right (List.mem_cons_of_mem _)

/-- A member is put in its place. -/
theorem Ascending.insertMember {members : List (String × Value)} (h : Ascending members)
    (key : String) (v : Value) : Ascending (insertMember key v members) := by
  induction members with
  | nil => exact List.pairwise_singleton _ _
  | cons first rest ih =>
    obtain ⟨k, w⟩ := first
    obtain ⟨hfirst, hrest⟩ := List.pairwise_cons.mp h
    rw [Json.insertMember]
    split_ifs with heq hlt
    · subst heq
      exact List.pairwise_cons.mpr ⟨hfirst, hrest⟩
    · refine List.pairwise_cons.mpr ⟨fun other hother => ?_, h⟩
      rcases List.mem_cons.mp hother with rfl | hother
      · exact hlt
      · exact String.lt_trans hlt (hfirst other hother)
    · have hgt : k < key := String.not_le.mp fun hle =>
        heq (String.le_antisymm hle (String.not_lt.mp hlt))
      refine List.pairwise_cons.mpr ⟨fun other hother => ?_, ih hrest⟩
      rcases mem_of_mem_insertMember hother with rfl | hother
      · exact hgt
      · exact hfirst other hother

/-- A member whose key comes after all others is put at the end. -/
theorem insertMember_of_lt {key : String} {v : Value} {members : List (String × Value)}
    (h : ∀ member ∈ members, member.1 < key) :
    insertMember key v members = members ++ [(key, v)] := by
  induction members with
  | nil => rfl
  | cons first rest ih =>
    obtain ⟨k, w⟩ := first
    have hfirst : k < key := h (k, w) List.mem_cons_self
    rw [insertMember, if_neg (String.ne_of_lt hfirst).symm, if_neg (String.lt_asymm hfirst),
      ih fun member hmember => h member (List.mem_cons_of_mem _ hmember), List.cons_append]

/-! ## Containers -/

/-- Items that are read from their own trees, one after the other. -/
theorem values_itemTrees {room : Nat} {items : List Value} (h : ∀ v ∈ items, v.Rereads room) :
    Tree.values room (Value.itemTrees items) = .ok items := by
  induction items with
  | nil => simp [Value.itemTrees, Tree.values]
  | cons v rest ih =>
    have hv : v.tree.value room = .ok v := h v List.mem_cons_self
    rw [Value.itemTrees, Tree.values, hv, ih fun w hw => h w (List.mem_cons_of_mem _ hw)]
    rfl

/-- Members in order that are read from their own trees, behind those read before. -/
theorem members_memberTrees {room : Nat} {before members : List (String × Value)}
    (hascending : Ascending (before ++ members)) (h : ∀ member ∈ members, member.2.Rereads room) :
    Tree.members room before (Value.memberTrees members) = .ok (before ++ members) := by
  induction members generalizing before with
  | nil => simp [Value.memberTrees, Tree.members]
  | cons member rest ih =>
    obtain ⟨key, v⟩ := member
    have hv : v.tree.value room = .ok v := h (key, v) List.mem_cons_self
    have hlast : ∀ member ∈ before, member.1 < key := fun member hmember =>
      (List.pairwise_append.mp hascending).2.2 member hmember (key, v) List.mem_cons_self
    have hmove : before ++ (key, v) :: rest = before ++ [(key, v)] ++ rest := by simp
    rw [Value.memberTrees, Tree.members, read_spell, hv]
    change Tree.members room (insertMember key v before) (Value.memberTrees rest) = _
    rw [hmove] at hascending ⊢
    rw [insertMember_of_lt hlast]
    exact ih hascending fun member hmember => h member (List.mem_cons_of_mem _ hmember)

/-- The members are in order, and those without doubles are read from their own trees. -/
structure Kept (room : Nat) (members : List (String × Value)) : Prop where
  ascending : Ascending members
  rereads : ∀ member ∈ members, member.2.Numbers Quantity.IsInteger → member.2.Rereads room

/-- No members are kept. -/
theorem Kept.nil (room : Nat) : Kept room [] := ⟨List.Pairwise.nil, nofun⟩

/-- One more member is kept if its value is. -/
theorem Kept.insertMember {room : Nat} {members : List (String × Value)} (h : Kept room members)
    {key : String} {v : Value} (hv : v.Numbers Quantity.IsInteger → v.Rereads room) :
    Kept room (insertMember key v members) := by
  refine ⟨h.ascending.insertMember key v, fun member hmember hnumbers => ?_⟩
  rcases mem_of_mem_insertMember hmember with rfl | hmember
  · exact hv hnumbers
  · exact h.rereads member hmember hnumbers

/-- Members that are kept are read from their own trees, if there is no double in them. -/
theorem Kept.members {room : Nat} {members : List (String × Value)} (h : Kept room members)
    (hnumbers : ∀ member ∈ members, member.2.Numbers Quantity.IsInteger) :
    Tree.members room [] (Value.memberTrees members) = .ok members :=
  members_memberTrees h.ascending fun member hmember =>
    h.rereads member hmember (hnumbers member hmember)

/-! ## Values that were read -/

mutual

/-- A value that was read, and has no double in it, is read from its own tree with the same room. -/
theorem rereads_of_value : ∀ (tree : Tree) {room : Nat} {v : Value}, tree.value room = .ok v →
    v.Numbers Quantity.IsInteger → v.Rereads room
  | .null, _, _, h, _ => by
    simp only [Tree.value] at h
    cases h
    simp [Value.Rereads, Value.tree, Tree.value]
  | .bool b, _, _, h, _ => by
    simp only [Tree.value] at h
    cases h
    simp [Value.Rereads, Value.tree, Tree.value]
  | .numeral n, room, v, h, hnumbers => by
    simp only [Tree.value] at h
    cases hread : n.quantity? with
    | none => simp [hread] at h
    | some q =>
      simp only [hread] at h
      cases h
      cases hnumbers with
      | number hq =>
        cases q with
        | double x => exact hq.elim
        | integer i =>
          have hquantity := Numeral.quantity?_ofInt (Numeral.fitsWord_of_quantity? hread)
          simp [Value.Rereads, Value.tree, Quantity.numeral, Tree.value, hquantity]
  | .string s, _, _, h, _ => by
    simp only [Tree.value] at h
    obtain ⟨text, -, h⟩ := bind_eq_ok.mp h
    cases h
    simp only [Value.Rereads, Value.tree, Tree.value, read_spell]
    rfl
  | .array items whole, 0, _, h, _ => by simp [Tree.value] at h
  | .array items whole, room + 1, v, h, hnumbers => by
    simp only [Tree.value] at h
    obtain ⟨vs, hvs, h⟩ := bind_eq_ok.mp h
    cases whole with
    | false => cases h
    | true =>
      cases h
      cases hnumbers with
      | array hitems =>
        have hread := values_itemTrees fun w hw => rereads_of_values items hvs w hw (hitems w hw)
        simp only [Value.Rereads, Value.tree, Tree.value, hread]
        rfl
  | .object members whole, 0, _, h, _ => by simp [Tree.value] at h
  | .object members whole, room + 1, v, h, hnumbers => by
    simp only [Tree.value] at h
    obtain ⟨vs, hvs, h⟩ := bind_eq_ok.mp h
    cases whole with
    | false => cases h
    | true =>
      cases h
      cases hnumbers with
      | object hmembers =>
        have hread := (kept_of_members members (.nil room) hvs).members hmembers
        simp only [Value.Rereads, Value.tree, Tree.value, hread]
        rfl

/-- Items that were read, and have no doubles in them, are read from their own trees. -/
theorem rereads_of_values : ∀ (trees : List Tree) {room : Nat} {items : List Value},
    Tree.values room trees = .ok items →
      ∀ v ∈ items, v.Numbers Quantity.IsInteger → v.Rereads room
  | [], _, _, h => by
    simp only [Tree.values] at h
    cases h
    nofun
  | tree :: rest, room, items, h => by
    simp only [Tree.values] at h
    obtain ⟨w, hw, h⟩ := bind_eq_ok.mp h
    obtain ⟨more, hmore, h⟩ := bind_eq_ok.mp h
    cases h
    intro v hv hnumbers
    rcases List.mem_cons.mp hv with rfl | hv
    · exact rereads_of_value tree hw hnumbers
    · exact rereads_of_values rest hmore v hv hnumbers

/-- Members that were read are kept. -/
theorem kept_of_members : ∀ (trees : List Member) {room : Nat}
    {before members : List (String × Value)}, Kept room before →
      Tree.members room before trees = .ok members → Kept room members
  | [], _, _, _, hbefore, h => by
    simp only [Tree.members] at h
    cases h
    exact hbefore
  | (key, tree) :: rest, room, before, members, hbefore, h => by
    simp only [Tree.members] at h
    obtain ⟨name, -, h⟩ := bind_eq_ok.mp h
    obtain ⟨v, hv, h⟩ := bind_eq_ok.mp h
    exact kept_of_members rest
      (hbefore.insertMember fun hnumbers => rereads_of_value tree hv hnumbers) h

end

/-- The members that a record keeps beside its fields are kept, and under keys that are no
fields. -/
theorem kept_of_placeRest {αs : List Type} {fs : Fields αs} {room : Nat} {slots slots' : Slots αs}
    {before others : List (String × Value)} {trees : List Member}
    (h : fs.placeRest room slots before trees = .ok (slots', others)) (hbefore : Kept room before)
    (hkeys : ∀ member ∈ before, member.1 ∉ fs.keys) :
    Kept room others ∧ ∀ member ∈ others, member.1 ∉ fs.keys := by
  induction trees generalizing slots before with
  | nil =>
    cases h
    exact ⟨hbefore, hkeys⟩
  | cons member rest ih =>
    obtain ⟨key, tree⟩ := member
    obtain ⟨name, -, h⟩ := bind_eq_ok.mp h
    cases hplace : fs.place? name tree slots with
    | some placed =>
      simp only [hplace] at h
      obtain ⟨slots'', -, h⟩ := bind_eq_ok.mp h
      exact ih h hbefore hkeys
    | none =>
      simp only [hplace] at h
      obtain ⟨v, hv, h⟩ := bind_eq_ok.mp h
      refine ih h (hbefore.insertMember fun hnumbers => rereads_of_value tree hv hnumbers) ?_
      intro member hmember
      rcases mem_of_mem_insertMember hmember with rfl | hmember
      · intro hfield
        obtain ⟨placed, hplaced⟩ := Fields.exists_place? hfield tree slots
        rw [hplace] at hplaced
        cases hplaced
      · exact hkeys member hmember

/-- A record that keeps other members has kept them as they were read. -/
theorem kept_of_readOpen {αs : List Type} {fs : Fields αs} {room : Nat} {tree : Tree} {row : Row αs}
    {others : List (String × Value)} (h : fs.readOpen room tree = .ok (row, others)) :
    Kept room others ∧ ∀ member ∈ others, member.1 ∉ fs.keys := by
  cases tree with
  | object members whole =>
    obtain ⟨⟨slots, others'⟩, hplace, h⟩ := bind_eq_ok.mp h
    cases whole with
    | false => cases h
    | true =>
      obtain ⟨row', -, h⟩ := bind_eq_ok.mp h
      cases h
      exact kept_of_placeRest hplace (.nil room) nofun
  | _ => cases h

end MarketFeed.Json
