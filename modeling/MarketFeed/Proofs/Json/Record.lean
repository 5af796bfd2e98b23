import MarketFeed.Json.Record

/-!
# What a reader of records has read

A record takes up the members of an object one after the other: each goes to the field whose key it
is under, which may not have met one before, or it is skipped. The items of an array are for the
fields in their order.

For a lenient number there are three ways to be there: as a numeral, as a numeric text, or as
nothing, which is null or a blank text.
-/

namespace MarketFeed.Json

open MarketFeed.Number

/-- A reader that goes on after another one has read what both have. -/
theorem bind_eq_ok {ε α β : Type} {x : Except ε α} {f : α → Except ε β} {b : β} :
    (x >>= f) = .ok b ↔ ∃ a, x = .ok a ∧ f a = .ok b := by
  cases x <;> simp [bind, Except.bind]

/-- A pair is read by reading the one and then the other. -/
theorem pair_eq_ok {ε α β : Type} {x : Except ε α} {y : Except ε β} {a : α} {b : β} :
    (x >>= fun a => y >>= fun b => pure (a, b)) = .ok (a, b) ↔ x = .ok a ∧ y = .ok b := by
  cases x <;> cases y <;> simp [bind, Except.bind, pure, Except.pure]

/-- A value that was changed afterwards was read before. -/
theorem map_eq_ok {ε α β : Type} {x : Except ε α} {f : α → β} {b : β} :
    x.map f = .ok b ↔ ∃ a, x = .ok a ∧ f a = b := by
  cases x <;> simp [Except.map]

/-- A key that was read is the text that is spelt. -/
theorem Spelling.read_eq_ok {spelling : Spelling} {text : String} :
    spelling.read = .ok text ↔ spelling.text? = some text := by
  unfold Spelling.read
  cases spelling.text? <;> simp

/-- A byte string is read exactly as the document it is, if nothing follows the value. -/
theorem decode_eq_ok_iff {α : Type} {read : Tree → Except Fault α} {bytes : Bytes} {a : α} :
    decode read bytes = .ok a ↔
      ∃ root, Document.ofBytes bytes = ⟨some root, true⟩ ∧ read root = .ok a := by
  unfold decode Document.read
  rcases Document.ofBytes bytes with ⟨_ | root, whole⟩
  · simp
  · cases whole <;> simp [bind_eq_ok, pure, Except.pure]

/-- A document that was read is what its value says. -/
theorem of_decode {α : Type} {read : Tree → Except Fault α} {bytes : Bytes} {a : α}
    (h : decode read bytes = .ok a) :
    ∃ root, (Document.ofBytes bytes).root = some root ∧ read root = .ok a := by
  obtain ⟨root, hroot, hread⟩ := decode_eq_ok_iff.mp h
  exact ⟨root, congrArg Document.root hroot, hread⟩

/-- A value that had to be there was there. -/
theorem orFault_eq_ok {α : Type} {a? : Option α} {a : α} : orFault a? = .ok a ↔ a? = some a := by
  cases a? <;> simp [orFault]

/-- What a record has for a field that an array leaves out it has in an object too. -/
theorem Absence.inObject?_of_inArray? {α : Type} {absence : Absence α} {a : α}
    (h : absence.inArray? = some a) : absence.inObject? = some a := by
  cases absence with
  | default b => exact h
  | _ => cases h

/-! ## One member -/

namespace Fields

variable {α : Type} {αs : List Type} {f : RecordField α} {fs : Fields αs}

/-- Take up the value under a key, or skip it if the key is no field. -/
def put {αs : List Type} (fs : Fields αs) (key : String) (tree : Tree) (slots : Slots αs) :
    Except Fault (Slots αs) :=
  (fs.place? key tree slots).getD (.ok slots)

/-- Take up a member or skip it. -/
def take {αs : List Type} (fs : Fields αs) (member : Member) (slots : Slots αs) :
    Except Fault (Slots αs) := do
  let key ← member.1.read
  fs.put key member.2 slots

/-- The members of an object are taken up one after the other. -/
theorem placeAll_cons (fs : Fields αs) (slots : Slots αs) (member : Member) (rest : List Member) :
    fs.placeAll slots (member :: rest) =
      fs.take member slots >>= fun slots => fs.placeAll slots rest := by
  obtain ⟨key, tree⟩ := member
  rw [placeAll, take]
  cases key.read <;> rfl

/-- The key of the first field, met for the first time. -/
theorem put_key (tree : Tree) (slots : Slots αs) :
    (Fields.cons f fs).put f.key tree (none, slots) =
      (f.read tree).map fun a => (some a, slots) := by
  have hplace : (Fields.cons f fs).place? f.key tree (none, slots) =
      some ((f.read tree).map fun a => (some a, slots)) := if_pos rfl
  exact congrArg (fun placed => placed.getD (.ok (none, slots))) hplace

/-- The key of the first field, met again. -/
theorem put_key_met (tree : Tree) (a : α) (slots : Slots αs) :
    (Fields.cons f fs).put f.key tree (some a, slots) = .error .unreadable := by
  have hplace : (Fields.cons f fs).place? f.key tree (some a, slots) =
      some (.error .unreadable) := if_pos rfl
  exact congrArg (fun placed => placed.getD (.ok (some a, slots))) hplace

/-- Any other key is for the other fields. -/
theorem put_of_ne {key : String} (h : key ≠ f.key) (tree : Tree) (slot : Option α)
    (slots : Slots αs) :
    (Fields.cons f fs).put key tree (slot, slots) =
      (fs.put key tree slots).map fun slots => (slot, slots) := by
  have hplace : (Fields.cons f fs).place? key tree (slot, slots) =
      (fs.place? key tree slots).map fun placed => placed.map fun slots => (slot, slots) :=
    if_neg h
  refine (congrArg (fun placed => placed.getD (.ok (slot, slots))) hplace).trans ?_
  unfold put
  cases fs.place? key tree slots <;> rfl

/-- One value is taken up: if it is under the key of the first field, it is read for a field not
met before, and otherwise the first field stays as it is. -/
theorem of_put_cons {key : String} {tree : Tree} {slot : Option α} {slots : Slots αs}
    {next : Slots (α :: αs)} (h : (Fields.cons f fs).put key tree (slot, slots) = .ok next) :
    (key = f.key ∧ slot = none ∧ ∃ a, f.read tree = .ok a ∧ next = (some a, slots)) ∨
      (key ≠ f.key ∧ ∃ slots', fs.put key tree slots = .ok slots' ∧ next = (slot, slots')) := by
  by_cases hkey : key = f.key
  · subst hkey
    cases slot with
    | some a => simp [put_key_met] at h
    | none =>
      rw [put_key] at h
      obtain ⟨a, hread, rfl⟩ := map_eq_ok.mp h
      exact .inl ⟨rfl, rfl, a, hread, rfl⟩
  · rw [put_of_ne hkey] at h
    obtain ⟨slots', hput, rfl⟩ := map_eq_ok.mp h
    exact .inr ⟨hkey, slots', hput, rfl⟩

/-! ## All fields -/

/-- The first field has the value that was met, or else the one that its absence means. -/
theorem fill_cons_iff {slot : Option α} {slots : Slots αs} {a : α} {row : Row αs} :
    (Fields.cons f fs).fill (slot, slots) = .ok (a, row) ↔
      (slot <|> f.absence.inObject?) = some a ∧ fs.fill slots = .ok row :=
  Iff.trans pair_eq_ok (and_congr_left' orFault_eq_ok)

/-- A record is read from an array exactly if the array is whole and its items are the values of
the fields. -/
theorem read_array_iff {items : List Tree} {whole : Bool} {row : Row αs} :
    fs.read (.array items whole) = .ok row ↔ whole = true ∧ fs.ofItems items = .ok row := by
  change (fs.ofItems items >>= fun row =>
    if whole then pure row else .error .unreadable) = _ ↔ _
  rw [bind_eq_ok]
  cases whole <;> simp [pure, Except.pure]

/-- The first item is for the first field. -/
theorem ofItems_cons_iff {item : Tree} {rest : List Tree} {a : α} {row : Row αs} :
    (Fields.cons f fs).ofItems (item :: rest) = .ok (a, row) ↔
      f.read item = .ok a ∧ fs.ofItems rest = .ok row :=
  pair_eq_ok

/-- Without an item the first field has the value that its absence means. -/
theorem ofItems_nil_iff {a : α} {row : Row αs} :
    (Fields.cons f fs).ofItems [] = .ok (a, row) ↔
      f.absence.inArray? = some a ∧ fs.ofItems [] = .ok row :=
  Iff.trans pair_eq_ok (and_congr_left' orFault_eq_ok)

end Fields

/-! ## Lenient numbers -/

/-- The tree is nothing in the place of a number: null, or a blank text. -/
def Tree.IsVoid : Tree → Prop
  | .null => True
  | .string s => ∃ text, s.text? = some text ∧ Text.isBlank text = true
  | _ => False

/-- The tree shows a number: it is the numeral for it, or a text that shows it. -/
def Tree.Shows (x : Float) : Tree → Prop
  | .numeral n => ∃ q, n.quantity? = some q ∧ q.toFloat = x
  | .string s => ∃ text, s.text? = some text ∧ Text.isBlank text = false ∧
      Number.readDouble? (utf8 (Text.trim text)) = some x
  | _ => False

/-- A tree that shows a number is not nothing. -/
theorem Tree.Shows.not_isVoid {tree : Tree} {x : Float} (h : tree.Shows x) : ¬ tree.IsVoid := by
  cases tree with
  | string s =>
    obtain ⟨text, htext, hshown, -⟩ := h
    rintro ⟨text', htext', hblank⟩
    obtain rfl : text = text' := Option.some.inj (htext.symm.trans htext')
    simp [hshown] at hblank
  | numeral n => simp [Tree.IsVoid]
  | _ => exact h.elim

/-- The tree that a scalar value was read from. -/
inductive Tree.Means : Value → Tree → Prop
  | null : Means .null .null
  | numeral {n : Numeral} {q : Quantity} (h : n.quantity? = some q) : Means (.number q) (.numeral n)
  | string {s : Spelling} {text : String} (h : s.text? = some text) :
      Means (.string text) (.string s)
  | bool (b : Bool) : Means (.bool b) (.bool b)
  | array (values : List Value) (items : List Tree) : Means (.array values) (.array items true)
  | object (values : List (String × Value)) (members : List Member) :
      Means (.object values) (.object members true)

/-- A value that was read is of the kind of its tree, and a scalar one is what the tree says. -/
theorem Tree.means_of_value {room : Nat} {tree : Tree} {value : Value}
    (h : tree.value room = .ok value) : tree.Means value := by
  cases tree with
  | null =>
    simp only [Tree.value] at h
    cases h
    exact .null
  | bool b =>
    simp only [Tree.value] at h
    cases h
    exact .bool b
  | numeral n =>
    simp only [Tree.value] at h
    split at h
    · cases h
      exact .numeral ‹_›
    · cases h
  | string s =>
    simp only [Tree.value] at h
    obtain ⟨text, htext, h⟩ := bind_eq_ok.mp h
    cases h
    exact .string (Spelling.read_eq_ok.mp htext)
  | array items whole =>
    cases room with
    | zero => simp [Tree.value] at h
    | succ room =>
      simp only [Tree.value] at h
      obtain ⟨values, -, h⟩ := bind_eq_ok.mp h
      cases whole with
      | false => cases h
      | true =>
        cases h
        exact .array values items
  | object members whole =>
    cases room with
    | zero => simp [Tree.value] at h
    | succ room =>
      simp only [Tree.value] at h
      obtain ⟨values, -, h⟩ := bind_eq_ok.mp h
      cases whole with
      | false => cases h
      | true =>
        cases h
        exact .object values members

/-- A lenient number that was read is missing where the document has nothing in its place, and
otherwise the number that is shown there. -/
theorem of_readLenientNumber {room : Nat} {tree : Tree} {number : Option Float}
    (h : readLenientNumber room tree = .ok number) :
    (number = none ∧ tree.IsVoid) ∨ ∃ x, number = some x ∧ tree.Shows x := by
  obtain ⟨value, hvalue, hnumber⟩ := bind_eq_ok.mp h
  cases Tree.means_of_value hvalue with
  | null =>
    cases hnumber
    exact .inl ⟨rfl, trivial⟩
  | @numeral n q hq =>
    cases hnumber
    exact .inr ⟨q.toFloat, rfl, q, hq, rfl⟩
  | @string s text htext =>
    cases hblank : Text.isBlank text with
    | true =>
      simp only [hblank, ↓reduceIte] at hnumber
      cases hnumber
      exact .inl ⟨rfl, text, htext, hblank⟩
    | false =>
      simp only [hblank, Bool.false_eq_true, ↓reduceIte] at hnumber
      cases hshown : readDouble? (utf8 (Text.trim text)) with
      | none => simp [hshown] at hnumber
      | some x =>
        simp only [hshown] at hnumber
        cases hnumber
        exact .inr ⟨x, rfl, text, htext, hblank, hshown⟩
  | bool b => cases hnumber
  | array values items => cases hnumber
  | object values members => cases hnumber

end MarketFeed.Json
