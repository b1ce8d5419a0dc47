/-!
# Positions in a text

An offset into a text, counted in characters from zero, and the line and column it falls on, counted
from one.  Only line feeds end lines.
-/

namespace DesignTokens
namespace Text

/-- A place in a text. -/
structure Position where
  /-- Lines are counted from one. -/
  line : Nat
  /-- Columns are counted from one. -/
  column : Nat
  /-- Characters before the place. -/
  offset : Nat
  deriving DecidableEq, Repr

namespace Position

/-- Walk over the first `count` characters, starting from the given line and column. -/
def walk (line column : Nat) : (count : Nat) → List Char → Nat × Nat
  | 0, _ => (line, column)
  | count + 1, [] => (line, column + (count + 1))
  | count + 1, c :: rest =>
      if c = '\n' then walk (line + 1) 1 count rest else walk line (column + 1) count rest

/-- The place of an offset in a text. -/
def ofOffset (text : List Char) (offset : Nat) : Position :=
  let place := walk 1 1 offset text
  ⟨place.1, place.2, offset⟩

/-- The place in words. -/
def describe (position : Position) : String :=
  "line " ++ toString position.line ++ " column " ++ toString position.column ++
    " (char " ++ toString position.offset ++ ")"

end Position
end Text
end DesignTokens
