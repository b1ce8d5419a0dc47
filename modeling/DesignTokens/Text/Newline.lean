/-!
# Line ends

A text file may end its lines by a line feed, a carriage return, or both in this order.  Reading one
turns every line end into a line feed.
-/

namespace DesignTokens
namespace Text

/-- Replace every line end by a line feed. -/
def unifyNewlines : List Char → List Char
  | [] => []
  | '\r' :: '\n' :: rest => '\n' :: unifyNewlines rest
  | '\r' :: rest => '\n' :: unifyNewlines rest
  | c :: rest => c :: unifyNewlines rest

end Text
end DesignTokens
