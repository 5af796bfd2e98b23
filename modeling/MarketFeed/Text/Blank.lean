/-!
# White space and trimming

The characters that count as white space in a text are those with the Unicode property of
that name. The set is closed: the zero-width space, the byte order mark, the Mongolian
vowel separator and the separators `U+001C` to `U+001F` are not in it.

Trimming removes white space at both ends and nothing else, and a text is blank when
trimming leaves nothing of it.
-/

namespace MarketFeed.Text

/-- The code points with the property White_Space, in ascending ranges. -/
def blankRanges : List (Nat × Nat) :=
  [(0x09, 0x0D), (0x20, 0x20), (0x85, 0x85), (0xA0, 0xA0), (0x1680, 0x1680),
   (0x2000, 0x200A), (0x2028, 0x2029), (0x202F, 0x202F), (0x205F, 0x205F), (0x3000, 0x3000)]

/-- A code point lies in one of the ranges. -/
def inRanges (ranges : List (Nat × Nat)) (code : Nat) : Bool :=
  ranges.any fun range => range.1 ≤ code && code ≤ range.2

/-- The character is white space. -/
def isBlankChar (c : Char) : Bool := inRanges blankRanges c.toNat

/-- Drop the white space a text begins with. -/
def trimFront (s : List Char) : List Char := s.dropWhile isBlankChar

/-- Drop the white space a text ends with. -/
def trimBack (s : List Char) : List Char := (trimFront s.reverse).reverse

/-- Drop the white space at both ends of a list of characters. -/
def trimChars (s : List Char) : List Char := trimBack (trimFront s)

/-- Drop the white space at both ends of a text. -/
def trim (s : String) : String := String.ofList (trimChars s.toList)

/-- The text is empty or holds white space only. -/
def isBlank (s : String) : Bool := s.toList.all isBlankChar

/-- A blank text stands for an absent one. -/
def nonBlank? (s : String) : Option String := if isBlank s then none else some s

end MarketFeed.Text
