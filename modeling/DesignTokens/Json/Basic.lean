import DesignTokens.Decimal.Floating
import DesignTokens.Fields

/-!
# Documents

A document value is null, a scalar, a list, or an object whose entries keep their order.  Whole
numbers and floating numbers are different scalars.
-/

namespace DesignTokens

/-- A value without parts. -/
inductive Scalar
  /-- A truth value. -/
  | bool (value : Bool)
  /-- A whole number of any size. -/
  | int (value : Int)
  /-- A number held to double precision. -/
  | real (value : Floating)
  /-- A text. -/
  | str (value : String)
  deriving DecidableEq, Inhabited

/-- A document value. -/
inductive Json
  /-- No value. -/
  | null
  /-- A value without parts. -/
  | scalar (value : Scalar)
  /-- Values in order. -/
  | list (items : List Json)
  /-- Named values in order. -/
  | object (entries : List (String × Json))
  deriving Inhabited

namespace Json

/-- A text as a document value. -/
abbrev str (text : String) : Json := .scalar (.str text)

/-- A truth value as a document value. -/
abbrev bool (value : Bool) : Json := .scalar (.bool value)

/-- A whole number as a document value. -/
abbrev int (value : Int) : Json := .scalar (.int value)

/-- A natural number as a document value. -/
abbrev nat (value : Nat) : Json := .int value

/-- The entry of an object called `key`. -/
def get? : Json → String → Option Json
  | .object entries, key => Fields.get? entries key
  | _, _ => none

/-- Whether the value is the text `text`. -/
def isText (value : Json) (text : String) : Bool :=
  match value with
  | .scalar (.str found) => found = text
  | _ => false

/-- The value, unless it is null. -/
def toOption : Json → Option Json
  | .null => none
  | value => some value

/-- The value if there is one, and null otherwise. -/
def ofOption : Option Json → Json
  | none => .null
  | some value => value

end Json
end DesignTokens
