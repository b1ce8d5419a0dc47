import DesignTokens.Token.Node

/-!
# Shadows

A shadow descriptor has offsets, blur, spread and color, each a text.  A value renders to a style
text when it is a descriptor, or a list or keyed collection of descriptors: the present fields of a
descriptor are joined by spaces, and the descriptors by commas.
-/

namespace DesignTokens

/-- One shadow. -/
structure Shadow where
  /-- Horizontal offset. -/
  x : Option String
  /-- Vertical offset. -/
  y : Option String
  /-- Blur radius. -/
  blur : Option String
  /-- Spread radius. -/
  spread : Option String
  /-- Color. -/
  color : Option String
  /-- The kind of shadow. -/
  type : String
  deriving DecidableEq, Repr

namespace Shadow

/-- The kind of shadow that is rendered. -/
def dropShadow : String := "dropShadow"

/-- The types whose values are shadows. -/
def types : List String := [TokenType.boxShadow.text, TokenType.shadow.text]

/-- A field as a text; null counts as absent. -/
def fieldText (entries : Fields Json) (key : String) : Option String :=
  ((Fields.get? entries key).bind Json.toOption).map Json.describe

/-- The shadow that the entries of an object describe. -/
def ofEntries (entries : Fields Json) : Shadow where
  x := fieldText entries "x"
  y := fieldText entries "y"
  blur := fieldText entries "blur"
  spread := fieldText entries "spread"
  color := fieldText entries "color"
  type := ((Fields.get? entries "type").map Json.describe).getD ""

/-- The fields in the order in which they are rendered. -/
def parts (shadow : Shadow) : List (Option String) :=
  [shadow.x, shadow.y, shadow.blur, shadow.spread, shadow.color]

/-- The present fields, separated by spaces. -/
def css (shadow : Shadow) : String := String.intercalate " " (shadow.parts.filterMap id)

/-- Whether the entries of an object name the kind that is rendered. -/
def isDropShadow (entries : Fields Json) : Bool :=
  match Fields.get? entries "type" with
  | some type => type.isText dropShadow
  | none => false

/-- The descriptor that a value is, if its kind is the one that is rendered. -/
def descriptor? : Json → Option Shadow
  | .object entries => if isDropShadow entries then some (ofEntries entries) else none
  | _ => none

/-- Whether a value is a descriptor. -/
def isDescriptor (value : Json) : Bool := (descriptor? value).isSome

/-- Whether a value is a descriptor with both offsets. -/
def isComplete : Json → Bool
  | .object entries => Fields.has entries "x" && Fields.has entries "y" && isDropShadow entries
  | _ => false

/-- The descriptors among some values, separated by commas. -/
def joined (values : List Json) : String :=
  String.intercalate ", " (values.filterMap fun value => (descriptor? value).map css)

/-- The style text of a value, if it is a descriptor or a collection.  An object with an offset is a
descriptor whatever its kind. -/
def render? : Json → Option String
  | .object entries =>
      if Fields.has entries "x" || Fields.has entries "y" || isDropShadow entries then
        some (ofEntries entries).css
      else some (joined (Fields.values entries))
  | .list items => some (joined items)
  | _ => none

end Shadow
end DesignTokens
