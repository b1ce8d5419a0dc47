import DesignTokens.Text.Range

/-!
# Blank characters

The characters that count as white space at the ends of a text: the Unicode white space together
with the four information separators U+001C to U+001F.
-/

namespace DesignTokens
namespace Text

/-- The code points of the blank characters, as ascending closed ranges. -/
def blankRanges : List (Nat × Nat) :=
  [(0x9, 0xD), (0x1C, 0x20), (0x85, 0x85), (0xA0, 0xA0), (0x1680, 0x1680), (0x2000, 0x200A),
   (0x2028, 0x2029), (0x202F, 0x202F), (0x205F, 0x205F), (0x3000, 0x3000)]

/-- Whether a character is white space. -/
def isBlank (c : Char) : Bool := inRanges blankRanges c

/-- Remove the longest suffix of characters that satisfy `drop`. -/
def trimEnd (drop : Char → Bool) (cs : List Char) : List Char :=
  (cs.reverse.dropWhile drop).reverse

/-- Remove the longest prefix and the longest suffix of characters that satisfy `drop`. -/
def trim (drop : Char → Bool) (cs : List Char) : List Char :=
  trimEnd drop (cs.dropWhile drop)

end Text
end DesignTokens
