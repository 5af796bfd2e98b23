import MarketFeed.Json.Tree
import MarketFeed.Text.Quoted

/-!
# Values and their compact text

A value is what a tree means: strings are texts, numerals are numbers, and the members of an
object are its keys with their values. Reading is strict. Strings must be valid text with
their units paired up, numbers must be in range, nesting has a limit, and of the members of
one key the last one counts; the keys of a value that was read are in ascending order.

The compact text of a value has no white space. It escapes the quote, the backslash and the
control characters, and nothing else.
-/

namespace MarketFeed.Json

open MarketFeed.Number

/-- A value of a document. -/
inductive Value
  | null
  | bool (b : Bool)
  | number (q : Quantity)
  | string (s : String)
  | array (items : List Value)
  | object (members : List (String × Value))

/-- Why a document is not what was asked for. Of the causes only two are worded by the fields
themselves; all others are one. -/
inductive Fault
  /-- The document is no document, or has not the shape asked for. -/
  | unreadable
  /-- A numeric text shows no number. -/
  | notNumeric (s : String)
  /-- A value is neither a number nor a numeric text. -/
  | notANumber (v : Value)

/-! ## Strings -/

/-- A unit that begins a pair. -/
def isLeading (n : Nat) : Bool := 0xD800 ≤ n && n ≤ 0xDBFF

/-- A unit that ends a pair. -/
def isTrailing (n : Nat) : Bool := 0xDC00 ≤ n && n ≤ 0xDFFF

/-- The code point of a pair of units. -/
def pairedCode (lead trail : Nat) : Nat := 0x10000 + (lead - 0xD800) * 0x400 + (trail - 0xDC00)

/-- The bytes of the text that is spelt, unless a unit of a pair stands alone. -/
def Spelling.bytes? : Spelling → Option Bytes
  | [] => some []
  | .byte b :: rest => (bytes? rest).map (b :: ·)
  | .unit lead :: .unit trail :: rest =>
    if isLeading lead then
      if isTrailing trail then do
        let c ← charFrom? 0 (pairedCode lead trail)
        let bytes ← bytes? rest
        pure (String.utf8EncodeChar c ++ bytes)
      else none
    else do
      let c ← charFrom? 0 lead
      let bytes ← bytes? (.unit trail :: rest)
      pure (String.utf8EncodeChar c ++ bytes)
  | .unit n :: rest => do
    let c ← charFrom? 0 n
    let bytes ← bytes? rest
    pure (String.utf8EncodeChar c ++ bytes)

/-- The text that is spelt. -/
def Spelling.text? (s : Spelling) : Option String := s.bytes?.bind readUtf8

/-- The text that is spelt, as a reader needs it. -/
def Spelling.read (s : Spelling) : Except Fault String :=
  match s.text? with
  | some s => .ok s
  | none => .error .unreadable

/-! ## Reading -/

/-- Put a member among members in ascending order of keys, in place of the one with its key. -/
def insertMember (key : String) (v : Value) : List (String × Value) → List (String × Value)
  | [] => [(key, v)]
  | (k, w) :: rest =>
    if key = k then (key, v) :: rest
    else if key < k then (key, v) :: (k, w) :: rest
    else (k, w) :: insertMember key v rest

mutual

/-- The value a tree means, if its containers are nested at most as deep as there is room. -/
def Tree.value (room : Nat) : Tree → Except Fault Value
  | .null => .ok .null
  | .bool b => .ok (.bool b)
  | .numeral n =>
    match n.quantity? with
    | some q => .ok (.number q)
    | none => .error .unreadable
  | .string s => do
    let s ← s.read
    pure (.string s)
  | .array items whole =>
    match room with
    | 0 => .error .unreadable
    | room + 1 => do
      let items ← Tree.values room items
      if whole then pure (.array items) else .error .unreadable
  | .object members whole =>
    match room with
    | 0 => .error .unreadable
    | room + 1 => do
      let members ← Tree.members room [] members
      if whole then pure (.object members) else .error .unreadable

/-- The values of the items of an array, in order. -/
def Tree.values (room : Nat) : List Tree → Except Fault (List Value)
  | [] => .ok []
  | tree :: rest => do
    let v ← Tree.value room tree
    let vs ← Tree.values room rest
    pure (v :: vs)

/-- The members of an object, put in order among the ones read before. -/
def Tree.members (room : Nat) (read : List (String × Value)) :
    List (Spelling × Tree) → Except Fault (List (String × Value))
  | [] => .ok read
  | (key, tree) :: rest => do
    let key ← key.read
    let v ← Tree.value room tree
    Tree.members room (insertMember key v read) rest

end

/-- Read a whole document. What its value is not comes before what follows the value. -/
def Document.read {α : Type} (read : Tree → Except Fault α) (d : Document) : Except Fault α :=
  match d.root with
  | none => .error .unreadable
  | some tree => do
    let a ← read tree
    if d.whole then pure a else .error .unreadable

/-- Read a byte string as a document. -/
def decode {α : Type} (read : Tree → Except Fault α) (bytes : Bytes) : Except Fault α :=
  (Document.ofBytes bytes).read read

/-! ## Compact text -/

/-- How a character is written in a string. -/
def escapedChar (c : Char) : List Char :=
  match c with
  | '"' => ['\\', '"']
  | '\\' => ['\\', '\\']
  | '\n' => ['\\', 'n']
  | '\r' => ['\\', 'r']
  | '\t' => ['\\', 't']
  | '\x08' => ['\\', 'b']
  | '\x0c' => ['\\', 'f']
  | c =>
    if c.toNat < 0x20 then
      ['\\', 'u', '0', '0', Nat.digitChar (c.toNat / 16), Nat.digitChar (c.toNat % 16)]
    else [c]

/-- A string between its quotes. -/
def stringChars (s : String) : List Char := '"' :: s.toList.flatMap escapedChar ++ ['"']

mutual

/-- The compact text of a value. -/
def Value.chars : Value → List Char
  | .null => "null".toList
  | .bool true => "true".toList
  | .bool false => "false".toList
  | .number q => q.chars
  | .string s => stringChars s
  | .array items => '[' :: Value.itemChars items ++ [']']
  | .object members => '\x7b' :: Value.memberChars members ++ ['\x7d']

/-- Items with commas between them. -/
def Value.itemChars : List Value → List Char
  | [] => []
  | [v] => v.chars
  | v :: rest => v.chars ++ ',' :: Value.itemChars rest

/-- Members with commas between them. -/
def Value.memberChars : List (String × Value) → List Char
  | [] => []
  | [(key, v)] => stringChars key ++ ':' :: v.chars
  | (key, v) :: rest => stringChars key ++ ':' :: v.chars ++ ',' :: Value.memberChars rest

end

/-- The compact text of a value. -/
def Value.text (v : Value) : String := String.ofList v.chars

/-! ## Faults in words -/

/-- What a fault says. The wording of the faults that a field does not word itself is free. -/
def Fault.message : Fault → String
  | .unreadable => "not a document of the expected shape"
  | .notNumeric s => "invalid numeric string " ++ Text.quoted s ++ ": invalid float literal"
  | .notANumber v => "expected a number or numeric string, got " ++ v.text

end MarketFeed.Json
