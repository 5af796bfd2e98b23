import MarketFeed.Proofs.Json.Members

/-!
# One value in the place of another

An object or an array with a spot in it is a record with the value of one field left open. Whatever
stands in the spot, all other fields have the same values. So a record that is read with one value
in the spot is read with any other one that the field can read, and it is the same record but for
this field.
-/

namespace MarketFeed.Json

variable {α β : Type} {αs : List Type}

/-! ## Columns -/

/-- A column of rows: one of the types, by its place in the list. -/
inductive Column : List Type → Type → Type 1
  | here {α : Type} {αs : List Type} : Column (α :: αs) α
  | there {α β : Type} {αs : List Type} (column : Column αs α) : Column (β :: αs) α

namespace Column

/-- How many columns stand in front. -/
def index : {αs : List Type} → Column αs α → Nat
  | _, .here => 0
  | _, .there column => column.index + 1

/-- The value of a row in the column. -/
def get : {αs : List Type} → Column αs α → Row αs → α
  | _, .here, (a, _) => a
  | _, .there column, (_, row) => column.get row

/-- The row with another value in the column. -/
def set : {αs : List Type} → Column αs α → Row αs → α → Row αs
  | _, .here, (_, row), a => (a, row)
  | _, .there column, (b, row), a => (b, column.set row a)

/-- The field of the column. -/
def field : {αs : List Type} → Column αs α → Fields αs → RecordField α
  | _, .here, .cons f _ => f
  | _, .there column, .cons _ fs => column.field fs

/-- The field of a column is one of the fields. -/
theorem key_field_mem : {αs : List Type} → (column : Column αs α) → (fs : Fields αs) →
    (column.field fs).key ∈ fs.keys
  | _, .here, .cons _ _ => List.mem_cons_self
  | _, .there column, .cons _ fs => List.mem_cons_of_mem _ (column.key_field_mem fs)

end Column

/-! ## Spots -/

/-- An object or an array with a spot in it for one value. -/
inductive Spot
  | member (front : List Member) (key : Spelling) (back : List Member)
  | item (front back : List Tree)

/-- The object or array with a value in the spot. -/
def Spot.fill (spot : Spot) (part : Tree) : Tree :=
  match spot with
  | .member front key back => .object (front ++ (key, part) :: back) true
  | .item front back => .array (front ++ part :: back) true

/-- The spot is where the value of a field stands, by its key in an object and by its index in an
array. -/
inductive Spot.IsFor (key : String) (index : Nat) : Spot → Prop
  | member {front back : List Member} {spelling : Spelling} (h : spelling.text? = some key) :
      IsFor key index (.member front spelling back)
  | item {front back : List Tree} (h : front.length = index) : IsFor key index (.item front back)

/-! ## Objects -/

/-- Under the key of a spot there is the value in it, among others. -/
theorem valuesUnder_spot {key : String} {spelling : Spelling} (h : spelling.text? = some key)
    (front back : List Member) (part : Tree) :
    valuesUnder key (front ++ (spelling, part) :: back) =
      valuesUnder key front ++ part :: valuesUnder key back := by
  rw [valuesUnder_append, valuesUnder_cons_self h]

/-- Under other keys the value in a spot has no say. -/
theorem valuesUnder_other {key name : String} {spelling : Spelling}
    (h : spelling.text? = some name) (hother : key ≠ name) (front back : List Member)
    (part : Tree) :
    valuesUnder key (front ++ (spelling, part) :: back) = valuesUnder key (front ++ back) := by
  have hne : spelling.text? ≠ some key := by
    rw [h]
    exact fun heq => hother (Option.some.inj heq).symm
  rw [valuesUnder_append, valuesUnder_append, valuesUnder_cons_of_ne hne]

/-- A field that finds its value among others finds this one alone, and would find any other in the
place of it. -/
theorem RecordField.Finds.replace {f : RecordField α} {front back : List Tree} {part : Tree} {a : α}
    (h : f.Finds (front ++ part :: back) a) :
    f.read part = .ok a ∧
      ∀ {part' : Tree} {a' : α}, f.read part' = .ok a' → f.Finds (front ++ part' :: back) a' := by
  generalize hparts : front ++ part :: back = parts at h
  cases h with
  | absent => simp at hparts
  | there hread =>
    obtain ⟨rfl, hsingle⟩ | ⟨-, hsingle⟩ := List.append_eq_singleton_iff.mp hparts
    · obtain ⟨rfl, rfl⟩ := List.cons_eq_cons.mp hsingle
      exact ⟨hread, .there⟩
    · cases hsingle

namespace Fields

/-- What the fields find with a value in a spot tells that the field of the spot can read it, and
what they find with another value that this field can read. -/
theorem Finds.replace {fs : Fields αs} {row : Row αs} (column : Column αs α) (hkeys : fs.keys.Nodup)
    {spelling : Spelling} (hspot : spelling.text? = some (column.field fs).key)
    {front back : List Member} {part : Tree}
    (h : fs.Finds (front ++ (spelling, part) :: back) row) :
    (column.field fs).read part = .ok (column.get row) ∧
      ∀ {part' : Tree} {a' : α}, (column.field fs).read part' = .ok a' →
        fs.Finds (front ++ (spelling, part') :: back) (column.set row a') := by
  induction column with
  | here =>
    cases fs with
    | cons f fs =>
      obtain ⟨a, row⟩ := row
      obtain ⟨hfirst, hrest⟩ := h
      have hkey : spelling.text? = some f.key := hspot
      rw [valuesUnder_spot hkey] at hfirst
      obtain ⟨hread, hreplace⟩ := hfirst.replace
      refine ⟨hread, fun {part' a'} hread' => ⟨?_, hrest.of_perm fun key hmem => ?_⟩⟩
      · rw [valuesUnder_spot hkey]
        exact hreplace hread'
      · have hother : key ≠ f.key := fun heq => (List.nodup_cons.mp hkeys).1 (heq ▸ hmem)
        rw [valuesUnder_other hkey hother, valuesUnder_other hkey hother]
  | there column ih =>
    cases fs with
    | cons f fs =>
      obtain ⟨b, row⟩ := row
      obtain ⟨hfirst, hrest⟩ := h
      obtain ⟨hnew, hkeys⟩ := List.nodup_cons.mp hkeys
      have hkey : spelling.text? = some (column.field fs).key := hspot
      have hother : f.key ≠ (column.field fs).key := fun heq =>
        hnew (heq ▸ column.key_field_mem fs)
      obtain ⟨hread, hreplace⟩ := ih hkeys hkey hrest
      refine ⟨hread, fun {part' a'} hread' => ⟨?_, hreplace hread'⟩⟩
      rw [valuesUnder_other hkey hother] at hfirst ⊢
      exact hfirst

/-- The items of an array tell that the field of a spot can read the value in it, and they are read
with another value that this field can read. -/
theorem ofItems_replace {fs : Fields αs} {row : Row αs} (column : Column αs α)
    {front back : List Tree} (hspot : front.length = column.index) {part : Tree}
    (h : fs.ofItems (front ++ part :: back) = .ok row) :
    (column.field fs).read part = .ok (column.get row) ∧
      ∀ {part' : Tree} {a' : α}, (column.field fs).read part' = .ok a' →
        fs.ofItems (front ++ part' :: back) = .ok (column.set row a') := by
  induction column generalizing front with
  | here =>
    cases fs with
    | cons f fs =>
      obtain rfl := List.length_eq_zero_iff.mp hspot
      obtain ⟨hread, hrest⟩ := ofItems_cons_iff.mp h
      exact ⟨hread, fun hread' => ofItems_cons_iff.mpr ⟨hread', hrest⟩⟩
  | there column ih =>
    cases fs with
    | cons f fs =>
      obtain ⟨item, front, rfl⟩ := List.exists_cons_of_length_eq_add_one hspot
      obtain ⟨hfirst, hrest⟩ := ofItems_cons_iff.mp h
      obtain ⟨hread, hreplace⟩ := ih (Nat.succ.inj hspot) hrest
      exact ⟨hread, fun hread' => ofItems_cons_iff.mpr ⟨hfirst, hreplace hread'⟩⟩

/-- A record that is read with a value in the spot for one of its fields has this value, and with
any other value that the field can read it is read as the same record but for this field. -/
theorem read_fill {fs : Fields αs} (hkeys : fs.keys.Nodup) (column : Column αs α) {spot : Spot}
    (hspot : spot.IsFor (column.field fs).key column.index) {part : Tree} {row : Row αs}
    (h : fs.read (spot.fill part) = .ok row) :
    (column.field fs).read part = .ok (column.get row) ∧
      ∀ {part' : Tree} {a' : α}, (column.field fs).read part' = .ok a' →
        fs.read (spot.fill part') = .ok (column.set row a') := by
  cases hspot with
  | @member front back spelling hspelling =>
    obtain ⟨-, hlegible, hfinds⟩ := (read_object_iff hkeys).mp h
    obtain ⟨hread, hreplace⟩ := hfinds.replace column hkeys hspelling
    refine ⟨hread, fun hread' => (read_object_iff hkeys).mpr ⟨rfl, ?_, hreplace hread'⟩⟩
    rw [Legible, List.forall_mem_append, List.forall_mem_cons] at hlegible ⊢
    exact hlegible
  | item hlength =>
    obtain ⟨-, hitems⟩ := read_array_iff.mp h
    obtain ⟨hread, hreplace⟩ := ofItems_replace column hlength hitems
    exact ⟨hread, fun hread' => read_array_iff.mpr ⟨rfl, hreplace hread'⟩⟩

end Fields

end MarketFeed.Json
