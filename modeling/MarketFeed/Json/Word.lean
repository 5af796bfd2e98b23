import MarketFeed.Json.Record

/-!
# Integers of fixed width in documents

Counts, positions and instants are words of fixed width. A document gives one as an integer
in its range; a numeral with a fraction or an exponent is no integer, whatever its value.
-/

namespace MarketFeed.Json

/-- A signed word of 64 bits. -/
def readInt64 (tree : Tree) : Except Fault Int64 :=
  (readInteger Int64.minValue.toInt Int64.maxValue.toInt tree).map Int64.ofInt

/-- A signed word of 32 bits. -/
def readInt32 (tree : Tree) : Except Fault Int32 :=
  (readInteger Int32.minValue.toInt Int32.maxValue.toInt tree).map Int32.ofInt

/-- An unsigned word of 64 bits. -/
def readUInt64 (tree : Tree) : Except Fault UInt64 :=
  (readInteger 0 (UInt64.size - 1 : Nat) tree).map fun i => UInt64.ofNat i.toNat

/-- An unsigned word of 32 bits. -/
def readUInt32 (tree : Tree) : Except Fault UInt32 :=
  (readInteger 0 (UInt32.size - 1 : Nat) tree).map fun i => UInt32.ofNat i.toNat

/-- An integer as a value. -/
def Value.integer (i : Int) : Value := .number (.integer i)

/-- A double as a value. -/
def Value.double (x : Float) : Value := .number (.double x)

/-- A value that may be missing, as null. -/
def Value.nullable {α : Type} (value : α → Value) : Option α → Value
  | some a => value a
  | none => .null

/-- A member that is left out when its value is missing. -/
def optionalMember {α : Type} (key : String) (value : α → Value) : Option α →
    List (String × Value)
  | some a => [(key, value a)]
  | none => []

end MarketFeed.Json
