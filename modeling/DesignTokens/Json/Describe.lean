import DesignTokens.Json.Basic
import DesignTokens.Text.Quoted

/-!
# Values in running text

A value that a text is made from is written plainly: a text as it is, a number as a number, and a
list or object in brackets with its texts in quotes.
-/

namespace DesignTokens

namespace Scalar

/-- A scalar inside a list or an object. -/
def literal : Scalar → String
  | .bool true => "True"
  | .bool false => "False"
  | .int value => String.ofList (intChars value)
  | .real value => String.ofList value.chars
  | .str text => Text.quoted text

/-- A scalar on its own. -/
def describe : Scalar → String
  | .str text => text
  | scalar => scalar.literal

end Scalar

namespace Json

mutual

/-- A value inside a list or an object. -/
def literal : Json → String
  | .null => "None"
  | .scalar value => value.literal
  | .list items => "[" ++ String.intercalate ", " (itemLiterals items) ++ "]"
  | .object entries => "\x7b" ++ String.intercalate ", " (entryLiterals entries) ++ "\x7d"

/-- The items of a list. -/
def itemLiterals : List Json → List String
  | [] => []
  | item :: rest => item.literal :: itemLiterals rest

/-- The entries of an object. -/
def entryLiterals : List (String × Json) → List String
  | [] => []
  | (key, value) :: rest => (Text.quoted key ++ ": " ++ value.literal) :: entryLiterals rest

end

/-- A value on its own. -/
def describe : Json → String
  | .scalar value => value.describe
  | value => value.literal

/-- The kind of a value in one word. -/
def kind : Json → String
  | .null => "NoneType"
  | .scalar (.bool _) => "bool"
  | .scalar (.int _) => "int"
  | .scalar (.real _) => "float"
  | .scalar (.str _) => "str"
  | .list _ => "list"
  | .object _ => "dict"

end Json
end DesignTokens
