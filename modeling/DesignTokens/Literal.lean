import DesignTokens.Json.Describe

/-!
# Object literals

A processed tree is written as a script object literal: one entry a line, two spaces deeper at each
level, in the order of the tree.  A name is written bare when it is an identifier or a decimal
integer, and in quotes otherwise.  Entries and items without a value are left out.
-/

namespace DesignTokens
namespace Literal

/-- Spaces by which a level is indented. -/
def step : Int := 2

/-- Blanks at the beginning of a line. -/
def spaces (indent : Int) : List Char := List.replicate indent.toNat ' '

/-- Texts with a separator between each and the next. -/
def separated (separator : List Char) (parts : List (List Char)) : List Char :=
  separator.intercalate parts

/-- Whether a character may begin an identifier. -/
def isNameStart (c : Char) : Bool := c.isAlpha || c = '_' || c = '$'

/-- Whether a character may stand inside an identifier. -/
def isNamePart (c : Char) : Bool := isNameStart c || c.isDigit

/-- Whether a text is an identifier. -/
def isIdentifier : List Char → Bool
  | [] => false
  | c :: rest => isNameStart c && rest.all isNamePart

/-- Whether a text is a decimal integer without a leading zero. -/
def isInteger : List Char → Bool
  | [] => false
  | ['0'] => true
  | c :: rest => c.isDigit && c != '0' && rest.all Char.isDigit

/-- A text without one line feed at its end. -/
def beforeNewline (cs : List Char) : List Char :=
  if cs.getLast? = some '\n' then cs.dropLast else cs

/-- A character of a text in quotes. -/
def escape (c : Char) : List Char :=
  if c = '\\' then ['\\', '\\']
  else if c = '\'' then ['\\', '\'']
  else if c = '\n' then ['\\', 'n']
  else [c]

/-- A text in quotes. -/
def string (cs : List Char) : List Char := '\'' :: cs.flatMap escape ++ ['\'']

/-- A property name.  A line feed at the end does not keep a name from being written bare. -/
def key (name : String) : List Char :=
  let cs := name.toList
  let stem := beforeNewline cs
  if isIdentifier stem || isInteger stem then cs else string cs

/-- A scalar. -/
def scalar : Scalar → List Char
  | .bool true => "true".toList
  | .bool false => "false".toList
  | .int value => intChars value
  | .real value => value.chars
  | .str text => string text.toList

/-- The lines of a block between braces, or an empty pair of braces. -/
def block (indent : Int) (lines : List (List Char)) : List Char :=
  if lines.isEmpty then ['{', '}']
  else ['{', '\n'] ++ separated [',', '\n'] lines ++ '\n' :: spaces indent ++ ['}']

mutual

/-- A value at the given indentation. -/
def value (indent : Int) : Json → List Char
  | .null => string "None".toList
  | .scalar leaf => scalar leaf
  | .list items => '[' :: separated [',', ' '] (itemTexts indent items) ++ [']']
  | .object entries => block indent (entryLines (indent + step) entries)

/-- The items of a list. -/
def itemTexts (indent : Int) : List Json → List (List Char)
  | [] => []
  | .null :: rest => itemTexts indent rest
  | item :: rest => value indent item :: itemTexts indent rest

/-- The entries of an object, at their own indentation. -/
def entryLines (indent : Int) : List (String × Json) → List (List Char)
  | [] => []
  | (_, .null) :: rest => entryLines indent rest
  | (name, entry) :: rest =>
      (spaces indent ++ key name ++ [':', ' '] ++ value indent entry) :: entryLines indent rest

end

/-- A tree at the given indentation; anything but an object is written as an empty one. -/
def object (indent : Int) : Json → List Char
  | .object entries => block indent (entryLines (indent + step) entries)
  | _ => ['{', '}']

end Literal
end DesignTokens
