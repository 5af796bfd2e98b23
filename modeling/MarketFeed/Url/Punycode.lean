import MarketFeed.Text.Pieces

/-!
# Names beyond ASCII in ASCII

A label with characters beyond ASCII is written as its ASCII characters, followed by where the
others go. These are put in from the lowest code point up, and for each of them stands how many
places and code points lie between it and the one before, in digits to the base 36 whose weights
adapt to the gaps met so far. Lower case letters are the digits up to 25 and decimal digits are
the rest.

Before that each character of a name is brought to the form it has in names. Of the alphabets
with two cases only those of Latin, Greek and Cyrillic are covered.
-/

namespace MarketFeed.Url

/-- The digit of a value below 36. -/
def gapDigit (value : Nat) : Char :=
  if value < 26 then Char.ofNat (97 + value) else Char.ofNat (22 + value)

/-- The least value that a digit other than the last has, by its place. -/
def gapThreshold (bias place : Nat) : Nat := min 26 (max 1 (place - bias))

/-- The digits of a gap, from the given place on. -/
def gapDigits (bias place gap : Nat) : List Char :=
  let least := gapThreshold bias place
  if gap < least then [gapDigit gap]
  else
    gapDigit (least + (gap - least) % (36 - least)) ::
      gapDigits bias (place + 36) ((gap - least) / (36 - least))
termination_by gap
decreasing_by
  have positive : 1 ≤ gapThreshold bias place := by unfold gapThreshold; omega
  have shrinks := Nat.div_le_self (gap - gapThreshold bias place) (36 - gapThreshold bias place)
  omega

/-- The bias that a scaled gap leads to, when it has been scaled down for so many places. -/
def biasFrom (places gap : Nat) : Nat :=
  if 455 < gap then biasFrom (places + 36) (gap / 35) else places + 36 * gap / (gap + 38)
termination_by gap

/-- The bias after a gap, with so many characters in place. The first gap tells least. -/
def biasAfter (first : Bool) (inPlace gap : Nat) : Nat :=
  let scaled := if first then gap / 700 else gap / 2
  biasFrom 0 (scaled + scaled / inPlace)

/-- How far a label is written: its text, how many characters are in place, the gap since the
last of them, and the bias. -/
structure Punycode where
  text : List Char
  inPlace : Nat
  gap : Nat
  bias : Nat

namespace Punycode

/-- Pass a character of the label, while those of one code point are put in. -/
def pass (ascii point : Nat) (p : Punycode) (c : Char) : Punycode :=
  if c.toNat < point then { p with gap := p.gap + 1 }
  else if c.toNat = point then
    { text := p.text ++ gapDigits p.bias 36 p.gap
      inPlace := p.inPlace + 1
      gap := 0
      bias := biasAfter (p.inPlace = ascii) (p.inPlace + 1) p.gap }
  else p

/-- Put in the characters of these code points, which ascend; all below `next` are in place. -/
def putIn (label : List Char) (ascii : Nat) : Nat → List Nat → Punycode → Punycode
  | _, [], p => p
  | next, point :: points, p =>
    let passed := label.foldl (pass ascii point)
      { p with gap := p.gap + (point - next) * (p.inPlace + 1) }
    putIn label ascii (point + 1) points { passed with gap := passed.gap + 1 }

/-- The text of a label. -/
def encode (label : List Char) : List Char :=
  let ascii := label.filter fun c => c.toNat < 128
  let points := ((label.filter fun c => 128 ≤ c.toNat).map Char.toNat).mergeSort.eraseDups
  let start := if ascii.isEmpty then [] else ascii ++ ['-']
  (putIn label ascii.length 128 points ⟨start, ascii.length, 0, 72⟩).text

end Punycode

/-- The lower case form of a letter of the Latin, Greek and Cyrillic alphabets. -/
def lowerCase (c : Char) : Char :=
  let n := c.toNat
  let shifted (steps : Nat) := Char.ofNat (n + steps)
  if n < 0x80 then c.toLower
  else if 0xC0 ≤ n ∧ n ≤ 0xDE ∧ n ≠ 0xD7 then shifted 32
  else if n = 0x178 then Char.ofNat 0xFF
  else if 0x100 ≤ n ∧ n ≤ 0x12F ∨ 0x134 ≤ n ∧ n ≤ 0x137 ∨ 0x14A ≤ n ∧ n ≤ 0x177 then
    shifted (1 - n % 2)
  else if 0x139 ≤ n ∧ n ≤ 0x148 ∨ 0x179 ≤ n ∧ n ≤ 0x17E then shifted (n % 2)
  else if 0x391 ≤ n ∧ n ≤ 0x3AB then shifted 32
  else if 0x400 ≤ n ∧ n ≤ 0x40F then shifted 80
  else if 0x410 ≤ n ∧ n ≤ 0x42F then shifted 32
  else c

/-- A character as it stands in a name: in lower case, the wide forms of ASCII as ASCII, the
ideographic full stops as points, and invisible marks left out. -/
def nameChars (c : Char) : List Char :=
  let n := c.toNat
  if [0xAD, 0x200B, 0x2060, 0xFEFF].contains n then []
  else if [0x3002, 0xFF61].contains n then ['.']
  else if 0xFF01 ≤ n ∧ n ≤ 0xFF5E then [(Char.ofNat (n - 0xFEE0)).toLower]
  else if [0xA0, 0x3000].contains n then [' ']
  else [lowerCase c]

/-- A label in ASCII. -/
def asciiLabel (label : List Char) : List Char :=
  if label.all fun c => c.toNat < 128 then label else "xn--".toList ++ Punycode.encode label

/-- A name in ASCII, label by label. -/
def asciiName (name : List Char) : List Char :=
  ['.'].intercalate ((Text.pieces (· = '.') name).map asciiLabel)

end MarketFeed.Url
