/-!
# Ranges of characters

Character classes are given as ascending lists of closed ranges of code points.
-/

namespace DesignTokens
namespace Text

/-- Whether the code point of a character lies in one of the ranges.  The ranges ascend, so the
search stops at the first range that ends at or after the character. -/
def inRanges : List (Nat × Nat) → Char → Bool
  | [], _ => false
  | (first, last) :: rest, c =>
      if c.toNat ≤ last then decide (first ≤ c.toNat) else inRanges rest c

end Text
end DesignTokens
