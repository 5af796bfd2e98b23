import MarketFeed.Proofs.Json.Grammar
import MarketFeed.Proofs.Number.Layout

/-!
# Values come back from their compact text

The compact text of a value is a text of its tree: there is no white space in it, and its strings
and numerals are written in one of their ways.
-/

namespace MarketFeed.Json

open MarketFeed.Number

/-- Every number in the value has the property. -/
inductive Value.Numbers (p : Quantity → Prop) : Value → Prop
  | null : Numbers p .null
  | bool (b : Bool) : Numbers p (.bool b)
  | number {q : Quantity} (h : p q) : Numbers p (.number q)
  | string (s : String) : Numbers p (.string s)
  | array {items : List Value} (h : ∀ v ∈ items, Numbers p v) : Numbers p (.array items)
  | object {members : List (String × Value)} (h : ∀ member ∈ members, Numbers p member.2) :
      Numbers p (.object members)

/-! ## Trees -/

mutual

/-- The tree of the compact text of a value. -/
def Value.tree : Value → Tree
  | .null => .null
  | .bool b => .bool b
  | .number q => .numeral q.numeral
  | .string s => .string (spell s)
  | .array items => .array (Value.itemTrees items) true
  | .object members => .object (Value.memberTrees members) true

/-- The trees of items, in order. -/
def Value.itemTrees : List Value → List Tree
  | [] => []
  | v :: rest => v.tree :: Value.itemTrees rest

/-- The trees of members, under the keys as they are spelt. -/
def Value.memberTrees : List (String × Value) → List Member
  | [] => []
  | (key, v) :: rest => (spell key, v.tree) :: Value.memberTrees rest

end

/-- A tree may be written without white space around it. -/
theorem Tree.Written.item {tree : Tree} {cs : List Char} (h : Tree.Written tree cs) :
    ItemWritten tree cs := by
  have hitem : ItemWritten tree ([] ++ (cs ++ [])) := .intro nofun h nofun
  rwa [List.nil_append, List.append_nil] at hitem

/-- A member may be written without white space. -/
theorem Tree.Written.member {tree : Tree} {cs : List Char} (h : Tree.Written tree cs)
    (key : String) : MemberWritten (spell key, tree) (stringChars key ++ ':' :: cs) := by
  have hmember : MemberWritten (spell key, tree)
      ([] ++ '"' :: (key.toList.flatMap escapedChar ++ '"' :: ([] ++ ':' :: cs))) :=
    .intro nofun (written_spell key) nofun h.item
  have hchars : stringChars key ++ ':' :: cs =
      '"' :: (key.toList.flatMap escapedChar ++ '"' :: ':' :: cs) := by
    simp only [stringChars, List.cons_append, List.append_assoc, List.nil_append]
  rw [hchars]
  exact hmember

mutual

/-- The compact text of a value is a text of its tree. -/
theorem written_chars : ∀ (v : Value), v.Numbers Quantity.IsFinite → v.tree.Written v.chars
  | .null, _ => .null
  | .bool true, _ => .bool true
  | .bool false, _ => .bool false
  | .number q, .number hq => by
    rw [Value.chars, ← Quantity.chars_numeral hq]
    exact .numeral q.wellFormed_numeral.written
  | .string s, _ => .string (written_spell s)
  | .array items, .array h => .array (written_itemChars items h)
  | .object members, .object h => .object (written_memberChars members h)

/-- The compact text of items is a text of their trees. -/
theorem written_itemChars : ∀ (items : List Value), (∀ v ∈ items, v.Numbers Quantity.IsFinite) →
    ItemsWritten (Value.itemTrees items) (Value.itemChars items)
  | [], _ => .none nofun
  | [v], h => .last (written_chars v (h v (by simp))).item
  | v :: w :: more, h => .more (written_chars v (h v (by simp))).item
    (written_itemChars (w :: more) fun u hu => h u (by simp [hu]))

/-- The compact text of members is a text of their trees. -/
theorem written_memberChars : ∀ (members : List (String × Value)),
    (∀ member ∈ members, member.2.Numbers Quantity.IsFinite) →
      MembersWritten (Value.memberTrees members) (Value.memberChars members)
  | [], _ => .none nofun
  | [(key, v)], h => .last ((written_chars v (h (key, v) (by simp))).member key)
  | (key, v) :: w :: more, h => .more ((written_chars v (h (key, v) (by simp))).member key)
    (written_memberChars (w :: more) fun u hu => h u (by simp [hu]))

end

/-- Whatever is read from the text of a value is read from its tree. -/
theorem decode_text {α : Type} (read : Tree → Except Fault α) {v : Value}
    (h : v.Numbers Quantity.IsFinite) : decode read (utf8 v.text) = read v.tree := by
  rw [utf8, Value.text, String.toList_ofList]
  exact decode_written read (written_chars v h).item

/-- What is made of a value that is read from a tree is made of it when a document is read. -/
theorem decode_map {α β : Type} (read : Tree → Except Fault α) (f : α → β) (bytes : Bytes) :
    decode (fun tree => (read tree).map f) bytes = (decode read bytes).map f := by
  unfold decode Document.read
  cases (Document.ofBytes bytes).root with
  | none => rfl
  | some tree =>
    cases hread : read tree with
    | error fault => simp [hread, Except.map, bind, Except.bind]
    | ok a =>
      cases hwhole : (Document.ofBytes bytes).whole <;>
        simp [hread, Except.map, bind, Except.bind, pure, Except.pure]

end MarketFeed.Json
