/-!
# Blanks

The two sets of blank characters of the file format. `isBlank` is the property
White_Space of the Unicode character database, which separates the words of
headers and surrounds lines; `isAsciiBlank` holds its five ASCII members that
separate literals, so not the vertical tab. `trim` cuts blanks off both ends and
`words` splits at ASCII blanks.
-/

namespace ParityBlocks.Text

/-- The ranges of code points with the property White_Space. -/
def blankRanges : List (Nat × Nat) :=
  [(0x9, 0xD), (0x20, 0x20), (0x85, 0x85), (0xA0, 0xA0), (0x1680, 0x1680), (0x2000, 0x200A),
   (0x2028, 0x2029), (0x202F, 0x202F), (0x205F, 0x205F), (0x3000, 0x3000)]

/-- The character has the property White_Space. -/
def isBlank (c : Char) : Bool :=
  blankRanges.any fun (first, last) => decide (first ≤ c.toNat) && decide (c.toNat ≤ last)

/-- The character is a space, tab, line feed, form feed or carriage return. -/
def isAsciiBlank (c : Char) : Bool :=
  c == ' ' || c == '\t' || c == '\n' || c == '\x0c' || c == '\r'

/-- The text without the blanks at its ends. -/
def trim (cs : List Char) : List Char :=
  ((cs.dropWhile isBlank).reverse.dropWhile isBlank).reverse

/-- The longest pieces of the text without ASCII blanks. -/
def words (cs : List Char) : List (List Char) :=
  (cs.splitOnP isAsciiBlank).filter fun word => !word.isEmpty

end ParityBlocks.Text
