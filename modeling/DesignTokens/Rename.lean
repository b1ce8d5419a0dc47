import DesignTokens.Token.Path

/-!
# Rename rules

A rename rule gives a flat name to every path that ends with its pattern.  The rules are tried in
the order of the table, and the first one that matches applies.  A pattern has at least one key, as
every text with dots has.
-/

namespace DesignTokens

/-- A pattern of trailing keys, and the name they are replaced by. -/
structure Rename where
  /-- The keys at the end of a path. -/
  pattern : TokenPath
  /-- The flat name. -/
  name : String
  /-- The pattern has a key. -/
  proper : pattern ≠ [] := by decide
  deriving DecidableEq, Repr

namespace Rename

/-- The rule whose pattern is written with dots. -/
def ofDotted (dotted name : String) : Rename where
  pattern := TokenPath.ofDotted dotted
  name := name
  proper := TokenPath.ofDotted_ne_nil dotted

/-- The number of keys in the pattern. -/
def depth (rule : Rename) : Nat := rule.pattern.length

/-- The pattern written with dots. -/
def dotted (rule : Rename) : String := TokenPath.dotted rule.pattern

/-- Whether a path ends with the pattern. -/
def applies (rule : Rename) (path : TokenPath) : Bool := rule.pattern.isSuffixOf path

/-- The rules in order of priority. -/
def table : List Rename :=
  [.mk ["hover", "border", "color"] "hoverBorderColor",
   .mk ["filled", "focus", "background"] "filledFocusBackground",
   .mk ["filled", "hover", "background"] "filledHoverBackground",
   .mk ["float", "label", "active", "color"] "floatLabelActiveColor",
   .mk ["float", "label", "color"] "floatLabelColor",
   .mk ["float", "label", "focus", "color"] "floatLabelFocusColor",
   .mk ["float", "label", "invalid", "color"] "floatLabelInvalidColor",
   .mk ["focus", "border", "color"] "focusBorderColor",
   .mk ["invalid", "border", "color"] "invalidBorderColor",
   .mk ["invalid", "placeholder", "color"] "invalidPlaceholderColor",
   .mk ["selected", "focus", "background"] "selectedFocusBackground",
   .mk ["selected", "focus", "color"] "selectedFocusColor",
   .mk ["active", "background"] "activeBackground",
   .mk ["active", "color"] "activeColor",
   .mk ["anchor", "gutter"] "anchorGutter",
   .mk ["border", "color"] "borderColor",
   .mk ["border", "radius"] "borderRadius",
   .mk ["contrast", "color"] "contrastColor",
   .mk ["disabled", "background"] "disabledBackground",
   .mk ["disabled", "color"] "disabledColor",
   .mk ["disabled", "opacity"] "disabledOpacity",
   .mk ["filled", "background"] "filledBackground",
   .mk ["focus", "background"] "focusBackground",
   .mk ["focus", "color"] "focusColor",
   .mk ["focus", "ring"] "focusRing",
   .mk ["font", "size"] "fontSize",
   .mk ["font", "weight"] "fontWeight",
   .mk ["form", "field"] "formField",
   .mk ["hover", "background"] "hoverBackground",
   .mk ["hover", "color"] "hoverColor",
   .mk ["hover", "muted", "color"] "hoverMutedColor",
   .mk ["icon", "size"] "iconSize",
   .mk ["icon", "color"] "iconColor",
   .mk ["muted", "color"] "mutedColor",
   .mk ["option", "group"] "optionGroup",
   .mk ["placeholder", "color"] "placeholderColor",
   .mk ["selected", "background"] "selectedBackground",
   .mk ["selected", "color"] "selectedColor",
   .mk ["submenu", "icon"] "submenuIcon",
   .mk ["submenu", "label"] "submenuLabel",
   .mk ["transition", "duration"] "transitionDuration"]

/-- The keys whose containers are expanded into flat names, in alphabetical order. -/
def parents : List String :=
  ["active", "anchor", "border", "contrast", "disabled", "filled", "float", "focus", "font", "form",
   "hover", "icon", "invalid", "muted", "option", "placeholder", "selected", "submenu",
   "transition"]

/-- Whether the container of a key is expanded into flat names. -/
def isParent (key : String) : Bool := parents.contains key

/-- The first rule that applies to a path. -/
def find? (path : TokenPath) : Option Rename := table.find? fun rule => rule.applies path

/-- The flat name of a path, or its last key if no rule applies.  The empty path has no name. -/
def name? (path : TokenPath) : Option String :=
  match find? path with
  | some rule => some rule.name
  | none => path.getLast?

end Rename
end DesignTokens
