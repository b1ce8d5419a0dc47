import DesignTokens.Text.Split

/-!
# Token paths

A token is reached from the root of a document by a row of keys.  In running text the keys are
joined by dots.
-/

namespace DesignTokens

/-- The keys that lead to a token. -/
abbrev TokenPath := List String

namespace TokenPath

/-- The path whose keys are the segments between the dots of a text. -/
def ofDotted (text : String) : TokenPath := (Text.split '.' text.toList).map String.ofList

theorem ofDotted_ne_nil (text : String) : ofDotted text ≠ [] := by
  simpa [ofDotted] using Text.split_ne_nil '.' text.toList

/-- The keys of a path joined by dots. -/
def dotted (path : TokenPath) : String := String.intercalate "." path

/-- The path in running text; the root has a name of its own. -/
def location (path : TokenPath) : String :=
  let text := dotted path
  if text.isEmpty then "<root>" else text

end TokenPath
end DesignTokens
