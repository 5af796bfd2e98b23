import MarketFeed.Text.Pieces
import MarketFeed.Url.Percent

/-!
# Paths

A path is a list of segments. While it is read, a segment of one dot stands for nothing and
one of two dots removes the segment before it; if such a segment is the last one, the path
ends with an empty segment instead. The dots may be escaped. A segment that names a drive is
never removed.
-/

namespace MarketFeed.Url

open Text

/-- A segment that stands for the place it is at. -/
def isDot (s : List Char) : Bool := ["." , "%2e", "%2E"].any fun t => t.toList = s

/-- A segment that stands for the place above. -/
def isDoubleDot (s : List Char) : Bool :=
  ["..", ".%2e", ".%2E", "%2e.", "%2E.", "%2e%2e", "%2e%2E", "%2E%2e", "%2E%2E"].any
    fun t => t.toList = s

/-- A segment that names a drive: a letter and a colon or a bar. -/
def isDrive : List Char → Bool
  | [letter, mark] => letter.isAlpha && (mark == ':' || mark == '|')
  | _ => false

/-- Remove the last segment, unless it names a drive. -/
def dropSegment (path : List (List Char)) : List (List Char) :=
  match path.getLast? with
  | some s => if isDrive s then path else path.dropLast
  | none => []

/-- Add a segment to a path. The last segment of a text is never left out altogether. -/
def addSegment (path : List (List Char)) (s : List Char) (last : Bool) : List (List Char) :=
  let ending := if last then [[]] else []
  if isDoubleDot s then dropSegment path ++ ending
  else if isDot s then path ++ ending
  else path ++ [s]

/-- Add segments to a path. -/
def addSegments (path : List (List Char)) : List (List Char) → List (List Char)
  | [] => path
  | [s] => addSegment path s true
  | s :: rest => addSegments (addSegment path s false) rest

/-- A character separates the segments of a path. -/
def separates (special : Bool) (c : Char) : Bool := c == '/' || (special && c == '\\')

/-- Read the text of a path that follows its first separator. -/
def readSegments (special : Bool) (s : List Char) : List (List Char) :=
  addSegments [] ((pieces (separates special) s).map (escape escapedInPath))

/-- The text of a path: a slash before each segment. -/
def pathChars (path : List (List Char)) : List Char := path.flatMap fun s => '/' :: s

/-! ## Extending a path -/

/-- A path without the empty segment it ends with, unless that is its only one. -/
def withoutEmptyEnd (path : List (List Char)) : List (List Char) :=
  match path with
  | [] => []
  | [s] => [s]
  | path => if path.getLast? = some [] then path.dropLast else path

/-- White space that is no part of a URL wherever it stands. -/
def isDropped (c : Char) : Bool := c == '\t' || c == '\n' || c == '\r'

/-- Extend a path by a text as one segment. A text of one dot or of two adds nothing, and a
path of one empty segment only has room for the first. -/
def extendPath (special : Bool) (path : List (List Char)) (text : List Char) :
    List (List Char) :=
  if text = ['.'] || text = ['.', '.'] then path
  else
    addSegment (if path = [[]] then [] else path)
      (escape (escapedInSegment special) (text.filter fun c => !isDropped c)) true

end MarketFeed.Url
