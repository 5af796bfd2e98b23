import MarketFeed.Json.Token

/-!
# Documents as far as they can be followed

The tokens of a document are put together to a tree from left to right. Where they stop
fitting, the containers still open are closed as they stand and marked as cut. A reader of
the tree therefore meets the parts of a faulty document in the order in which they are
written, and meets the fault itself after all parts before it.

The containers still open are kept on a stack, so nesting of any depth is followed.
-/

namespace MarketFeed.Json

open MarketFeed.Number

/-- A value as it is written. A container that is not whole was cut off by a fault. -/
inductive Tree
  | null
  | bool (b : Bool)
  | numeral (n : Numeral)
  | string (s : Spelling)
  | array (items : List Tree) (whole : Bool)
  | object (members : List (Spelling × Tree)) (whole : Bool)

/-- A member of an object as it is written. -/
abbrev Member := Spelling × Tree

/-- A document: the value it begins with, if there is one, and whether that value is all of
it. -/
structure Document where
  root : Option Tree
  whole : Bool

/-- A container still open, with what it holds so far, the latest part first. An object is
inside the value of a key. -/
inductive Frame
  | array (items : List Tree)
  | object (members : List Member) (key : Spelling)

/-- Where the reading of tokens stands, inside the containers still open. -/
inductive Position
  /-- A value must follow. -/
  | value (stack : List Frame)
  /-- A value or the end of an array without items must follow. -/
  | firstItem (stack : List Frame)
  /-- A key must follow, or the end of the object if it has no members. -/
  | key (members : List Member) (stack : List Frame)
  /-- A colon must follow the key. -/
  | colon (members : List Member) (key : Spelling) (stack : List Frame)
  /-- A value is complete; a comma or the end of its container must follow. -/
  | after (tree : Tree) (stack : List Frame)

/-- The position after a token that begins or is a value. -/
def Position.begin? (stack : List Frame) : Token → Option Position
  | .null => some (.after .null stack)
  | .bool b => some (.after (.bool b) stack)
  | .numeral n => some (.after (.numeral n) stack)
  | .string s => some (.after (.string s) stack)
  | .openBracket => some (.firstItem stack)
  | .openBrace => some (.key [] stack)
  | _ => none

/-- The position after one more token, unless the token does not fit. -/
def Position.next? : Position → Token → Option Position
  | .value stack, token => begin? stack token
  | .firstItem stack, .closeBracket => some (.after (.array [] true) stack)
  | .firstItem stack, token => begin? (.array [] :: stack) token
  | .key [] stack, .closeBrace => some (.after (.object [] true) stack)
  | .key members stack, .string s => some (.colon members s stack)
  | .key _ _, _ => none
  | .colon members name stack, .colon => some (.value (.object members name :: stack))
  | .colon _ _ _, _ => none
  | .after tree (.array items :: stack), .comma => some (.value (.array (tree :: items) :: stack))
  | .after tree (.array items :: stack), .closeBracket =>
    some (.after (.array (tree :: items).reverse true) stack)
  | .after tree (.object members name :: stack), .comma =>
    some (.key ((name, tree) :: members) stack)
  | .after tree (.object members name :: stack), .closeBrace =>
    some (.after (.object ((name, tree) :: members).reverse true) stack)
  | .after _ _, _ => none

/-- Close every container still open around a value, as cut off. -/
def closeCut : List Frame → Option Tree → Option Tree
  | [], tree => tree
  | .array items :: stack, tree =>
    closeCut stack (some (.array (tree.toList ++ items).reverse false))
  | .object members key :: stack, tree =>
    closeCut stack
      (some (.object ((tree.toList.map fun tree => (key, tree)) ++ members).reverse false))

/-- The tree of a document whose tokens end, or stop fitting, at this position. -/
def Position.cut : Position → Option Tree
  | .value stack => closeCut stack none
  | .firstItem stack => closeCut stack (some (.array [] false))
  | .key members stack => closeCut stack (some (.object members.reverse false))
  | .colon members _ stack => closeCut stack (some (.object members.reverse false))
  | .after tree stack => closeCut stack (some tree)

/-- A value is complete and no container is open. -/
def Position.isComplete : Position → Bool
  | .after _ [] => true
  | _ => false

/-- Put tokens together from a position on. -/
def Position.follow (position : Position) : List Token → Document
  | [] => ⟨position.cut, position.isComplete⟩
  | token :: rest =>
    match position.next? token with
    | some position => position.follow rest
    | none => ⟨position.cut, false⟩

/-- The document a byte string is. -/
def Document.ofBytes (bytes : Bytes) : Document := (Position.value []).follow (tokens bytes)

end MarketFeed.Json
