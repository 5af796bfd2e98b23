/-!
# Cutting texts

A text is cut at every mark; the pieces are what stands between the marks, so there is one
piece more than there are marks.
-/

namespace MarketFeed.Text

/-- Put a character in front of the first piece. -/
def onFirst (c : Char) : List (List Char) → List (List Char)
  | [] => [[c]]
  | piece :: pieces => (c :: piece) :: pieces

/-- The pieces of a text between its marks. -/
def pieces (isMark : Char → Bool) : List Char → List (List Char)
  | [] => [[]]
  | c :: rest => if isMark c then [] :: pieces isMark rest else onFirst c (pieces isMark rest)

/-- Cut a text at its first mark, which is in neither part. -/
def cutAt? (isMark : Char → Bool) : List Char → Option (List Char × List Char)
  | [] => none
  | c :: rest =>
    if isMark c then some ([], rest)
    else (cutAt? isMark rest).map fun (before, after) => (c :: before, after)

end MarketFeed.Text
