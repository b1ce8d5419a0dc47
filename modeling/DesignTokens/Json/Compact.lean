import DesignTokens.Json.Basic
import DesignTokens.Text.Quoted

/-!
# Documents on one line

A value written as a document on one line, in ASCII: other characters are escaped by their UTF-16
code units.
-/

namespace DesignTokens

namespace Text

/-- The UTF-16 code units of a character. -/
def codeUnits (c : Char) : List Nat :=
  if c.toNat < 0x10000 then [c.toNat]
  else [0xD800 + (c.toNat - 0x10000) / 0x400, 0xDC00 + (c.toNat - 0x10000) % 0x400]

end Text

namespace Json

/-- A character between double quotes. -/
def textChar (c : Char) : List Char :=
  if c = '"' ∨ c = '\\' then ['\\', c]
  else if c = '\n' then ['\\', 'n']
  else if c = '\r' then ['\\', 'r']
  else if c = '\t' then ['\\', 't']
  else if c = '\x08' then ['\\', 'b']
  else if c = '\x0c' then ['\\', 'f']
  else if ' ' ≤ c ∧ c ≤ '~' then [c]
  else (Text.codeUnits c).flatMap fun unit => '\\' :: 'u' :: Text.hexDigits 4 unit

/-- A text between double quotes. -/
def compactText (text : String) : String :=
  String.ofList ('"' :: text.toList.flatMap textChar ++ ['"'])

/-- A scalar on one line. -/
def compactScalar : Scalar → String
  | .bool true => "true"
  | .bool false => "false"
  | .int value => String.ofList (intChars value)
  | .real .nan => "NaN"
  | .real (.infinite false) => "Infinity"
  | .real (.infinite true) => "-Infinity"
  | .real value => String.ofList value.chars
  | .str text => compactText text

mutual

/-- A value on one line. -/
def compact : Json → String
  | .null => "null"
  | .scalar value => compactScalar value
  | .list items => "[" ++ String.intercalate ", " (compactItems items) ++ "]"
  | .object entries => "\x7b" ++ String.intercalate ", " (compactEntries entries) ++ "\x7d"

/-- The items of a list. -/
def compactItems : List Json → List String
  | [] => []
  | item :: rest => compact item :: compactItems rest

/-- The entries of an object. -/
def compactEntries : List (String × Json) → List String
  | [] => []
  | (key, value) :: rest => (compactText key ++ ": " ++ compact value) :: compactEntries rest

end

end Json
end DesignTokens
