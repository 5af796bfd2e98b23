import MarketFeed.Json.Value

/-!
# Records in documents

A record is written as an object with a member for each field, or as an array of its fields
in order. An object may leave out a field that says what its absence means, and may hold
members that are no fields; it may not give a field twice. An array may leave out fields at
its end, if the record has defaults for them, and may hold nothing more.

Fields of different types stand in one list. `Row` is the type of their values, one for
each field, and `Slots` that of the values met so far.
-/

namespace MarketFeed.Json

/-- What it means that a field is absent. -/
inductive Absence (α : Type)
  /-- The record cannot be read. -/
  | fault
  /-- An object that leaves it out has this value; an array may not leave it out. -/
  | ofObject (a : α)
  /-- Wherever it is left out, it has this value. -/
  | default (a : α)

/-- The value of a field that an object leaves out. -/
def Absence.inObject? {α : Type} : Absence α → Option α
  | .fault => none
  | .ofObject a => some a
  | .default a => some a

/-- The value of a field that an array leaves out. -/
def Absence.inArray? {α : Type} : Absence α → Option α
  | .fault => none
  | .ofObject _ => none
  | .default a => some a

/-- A field: its key, how its value is read, and what its absence means. -/
structure RecordField (α : Type) where
  key : String
  read : Tree → Except Fault α
  absence : Absence α := .fault

/-- The fields of a record, in order. -/
inductive Fields : List Type → Type 1
  | nil : Fields []
  | cons {α : Type} {αs : List Type} (f : RecordField α) (fs : Fields αs) : Fields (α :: αs)

/-- A value for each type of a list. -/
def Row : List Type → Type
  | [] => Unit
  | α :: αs => α × Row αs

/-- A value for some of the types of a list. -/
def Slots : List Type → Type
  | [] => Unit
  | α :: αs => Option α × Slots αs

/-- The value that is there, or a fault. -/
def orFault {α : Type} : Option α → Except Fault α
  | some a => .ok a
  | none => .error .unreadable

namespace Fields

/-- No field has been met. -/
def noSlots : {αs : List Type} → Fields αs → Slots αs
  | _, .nil => ()
  | _, .cons _ fs => (none, fs.noSlots)

/-- Take up a member. Nothing comes back for a key that is no field, a fault for a field met
before. -/
def place? : {αs : List Type} → Fields αs → String → Tree → Slots αs →
    Option (Except Fault (Slots αs))
  | _, .nil, _, _, _ => none
  | _, .cons f fs, key, tree, (slot, slots) =>
    if key = f.key then
      some (match slot with
        | some _ => .error .unreadable
        | none => (f.read tree).map fun a => (some a, slots))
    else (fs.place? key tree slots).map fun placed => placed.map fun slots => (slot, slots)

/-- Take up the members of an object in order, skipping those that are no fields. -/
def placeAll {αs : List Type} (fs : Fields αs) (slots : Slots αs) :
    List Member → Except Fault (Slots αs)
  | [] => .ok slots
  | (key, tree) :: rest => do
    let key ← key.read
    let slots ← (fs.place? key tree slots).getD (.ok slots)
    placeAll fs slots rest

/-- The values of all fields of an object, those it left out included. -/
def fill : {αs : List Type} → Fields αs → Slots αs → Except Fault (Row αs)
  | _, .nil, _ => .ok ()
  | _, .cons f fs, (slot, slots) => do
    let a ← orFault (slot <|> f.absence.inObject?)
    let row ← fs.fill slots
    pure (a, row)

/-- The values of all fields of an array, those it left out included. -/
def ofItems : {αs : List Type} → Fields αs → List Tree → Except Fault (Row αs)
  | _, .nil, [] => .ok ()
  | _, .nil, _ :: _ => .error .unreadable
  | _, .cons f fs, [] => do
    let a ← orFault f.absence.inArray?
    let row ← fs.ofItems []
    pure (a, row)
  | _, .cons f fs, tree :: rest => do
    let a ← f.read tree
    let row ← fs.ofItems rest
    pure (a, row)

/-- The values of the fields of a record. -/
def read {αs : List Type} (fs : Fields αs) : Tree → Except Fault (Row αs)
  | .object members whole => do
    let slots ← fs.placeAll fs.noSlots members
    if whole then fs.fill slots else .error .unreadable
  | .array items whole => do
    let row ← fs.ofItems items
    if whole then pure row else .error .unreadable
  | _ => .error .unreadable

/-- Take up the members of an object in order, keeping the values of those that are no
fields, at most as deep as there is room. -/
def placeRest {αs : List Type} (fs : Fields αs) (room : Nat) (slots : Slots αs)
    (others : List (String × Value)) :
    List Member → Except Fault (Slots αs × List (String × Value))
  | [] => .ok (slots, others)
  | (key, tree) :: rest => do
    let key ← key.read
    match fs.place? key tree slots with
    | some placed => do
      let slots ← placed
      placeRest fs room slots others rest
    | none => do
      let v ← tree.value room
      placeRest fs room slots (insertMember key v others) rest

/-- The values of the fields of a record that keeps all other members too. It is written as
an object only. -/
def readOpen {αs : List Type} (fs : Fields αs) (room : Nat) :
    Tree → Except Fault (Row αs × List (String × Value))
  | .object members whole => do
    let (slots, others) ← fs.placeRest room fs.noSlots [] members
    if whole then do
      let row ← fs.fill slots
      pure (row, others)
    else .error .unreadable
  | _ => .error .unreadable

end Fields

/-! ## Values of fields -/

/-- A text. -/
def readString : Tree → Except Fault String
  | .string s => s.read
  | _ => .error .unreadable

/-- The number of a numeral. -/
def readQuantity : Tree → Except Fault Number.Quantity
  | .numeral n => orFault n.quantity?
  | _ => .error .unreadable

/-- An integer between two bounds. -/
def readInteger (least greatest : Int) (tree : Tree) : Except Fault Int := do
  match ← readQuantity tree with
  | .integer i => if least ≤ i ∧ i ≤ greatest then pure i else .error .unreadable
  | .double _ => .error .unreadable

/-- A double. -/
def readDouble (tree : Tree) : Except Fault Float := do
  let q ← readQuantity tree
  pure q.toFloat

/-- A value that may also be null. -/
def readNullable {α : Type} (read : Tree → Except Fault α) : Tree → Except Fault (Option α)
  | .null => .ok none
  | tree => (read tree).map some

/-- Items of one kind, in order. -/
def readItems {α : Type} (read : Tree → Except Fault α) : List Tree → Except Fault (List α)
  | [] => .ok []
  | tree :: rest => do
    let a ← read tree
    let as ← readItems read rest
    pure (a :: as)

/-- An array of items of one kind. -/
def readList {α : Type} (read : Tree → Except Fault α) : Tree → Except Fault (List α)
  | .array items whole => do
    let as ← readItems read items
    if whole then pure as else .error .unreadable
  | _ => .error .unreadable

/-- A word out of a closed choice: the string itself, or an object of one member that has the
word as its key and null as its value. -/
def readWord {α : Type} (ofWord? : String → Option α) : Tree → Except Fault α
  | .string s => do
    let word ← s.read
    orFault (ofWord? word)
  | .object [(key, .null)] true => do
    let word ← key.read
    orFault (ofWord? word)
  | _ => .error .unreadable

/-! ## Lenient fields -/

/-- A number that may be missing: null, a number, or a text that shows one. A blank text
stands for a missing number. -/
def readLenientNumber (room : Nat) (tree : Tree) : Except Fault (Option Float) := do
  match ← tree.value room with
  | .null => pure none
  | .number q => pure (some q.toFloat)
  | .string s =>
    if Text.isBlank s then pure none
    else
      match Number.readDouble? (utf8 (Text.trim s)) with
      | some x => pure (some x)
      | none => .error (.notNumeric s)
  | other => .error (.notANumber other)

/-- A text that may be missing; a blank one counts as missing. -/
def readNonBlank (tree : Tree) : Except Fault (Option String) := do
  let s ← readNullable readString tree
  pure (s.bind Text.nonBlank?)

end MarketFeed.Json
