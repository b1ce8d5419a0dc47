import DesignTokens.Json.Lexeme

/-!
# Ordinary texts

Here a document is read and worked on however it is written.  Two things are left out of that.  A
half of a pair that is escaped on its own is read as the replacement character, although it is a code
point that no file and no output takes.  And no stage is too deep for its recursion, although the
number of calls within calls is limited.  In an ordinary text no half is on its own, and lists and
objects are nested so little that every stage can follow.
-/

namespace DesignTokens
namespace Json

namespace Lexeme

/-- Whether each half of a pair in a row of code points has its other half. -/
def isPaired : List Nat → Bool
  | [] => true
  | high :: low :: rest =>
      if isHighHalf high && isLowHalf low then isPaired rest
      else !(isHighHalf high || isLowHalf high) && isPaired (low :: rest)
  | [unit] => !(isHighHalf unit || isLowHalf unit)

/-- Whether each half of a pair that is escaped in a text in quotes has its other half; `cs` begins
behind the opening quote. -/
def escapesPairs (cs : List Char) : Bool :=
  match scanText 0 [] 0 cs with
  | .ok (units, _) => isPaired units
  | .error _ => true

/-- The number of lists and objects that are open behind a lexeme. -/
def depthBehind (depth : Nat) : Lexeme → Nat
  | openObject => depth + 1
  | openList => depth + 1
  | closeObject => depth - 1
  | closeList => depth - 1
  | _ => depth

/-- The most lists and objects that are open at once in a row of lexemes, where some are open before
it. -/
def nesting (depth : Nat) : List Lexeme → Nat
  | [] => depth
  | lexeme :: rest => max depth (nesting (lexeme.depthBehind depth) rest)

end Lexeme

/-- The nesting that every stage can follow: none makes more than four calls for a list or an object,
and a thousand calls within calls are allowed. -/
def nestingLimit : Nat := 200

/-- No half of a pair is on its own in the characters of a document, and lists and objects are nested
within the limit. -/
def isOrdinary (cs : List Char) : Bool :=
  let row := Lexeme.row 0 0 cs
  row.all (fun (offset, lexeme) =>
    match lexeme with
    | .text _ => Lexeme.escapesPairs (cs.drop (offset + 1))
    | _ => true) &&
  Lexeme.nesting 0 (row.map Prod.snd) ≤ nestingLimit

example : isOrdinary ['[', '"', '\\', 'u', 'd', '8', '3', 'd', '\\', 'u', 'd', 'e', '0', '0', '"',
    ']'] = true := by
  decide

example : isOrdinary ['[', '"', '\\', 'u', 'd', '8', '3', 'd', '"', ']'] = false := by
  decide

end Json
end DesignTokens
