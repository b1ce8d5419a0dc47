import DesignTokens.Document
import DesignTokens.Log.Journal
import DesignTokens.Resolve.Dispatch
import DesignTokens.Settings.Basic

/-!
# Themes

A theme is made of four sections of a document: the primitive tokens, the semantic tokens, and what
the light and the dark color scheme add to them.  Each section is resolved on its own, at the path
that also names it in the document.
-/

namespace DesignTokens

/-- A section of a theme. -/
inductive ThemePass
  /-- The primitive tokens. -/
  | primitive
  /-- The semantic tokens. -/
  | semantic
  /-- The light color scheme. -/
  | light
  /-- The dark color scheme. -/
  | dark
  deriving DecidableEq, Repr

namespace ThemePass

/-- The path of a section, which is both the end of its name and the path of its root. -/
def path : ThemePass → TokenPath
  | primitive => ["primitive"]
  | semantic => ["semantic"]
  | light => ["semantic", "light"]
  | dark => ["semantic", "dark"]

end ThemePass

/-- The resolved sections of a document. -/
structure Theme where
  /-- The primitive tokens. -/
  primitive : Fields Json
  /-- The semantic tokens. -/
  semantic : Fields Json
  /-- The light color scheme. -/
  light : Fields Json
  /-- The dark color scheme. -/
  dark : Fields Json

namespace Theme

/-- Both color schemes. -/
def colorScheme (theme : Theme) : Fields Json :=
  [("light", .object theme.light), ("dark", .object theme.dark)]

/-- The semantic tokens with the color schemes among them. -/
def semanticWithSchemes (theme : Theme) : Fields Json :=
  Fields.put theme.semantic "colorScheme" (.object theme.colorScheme)

/-- The theme as one tree. -/
def merged (theme : Theme) : Fields Json :=
  [("primitive", .object theme.primitive), ("semantic", .object theme.semanticWithSchemes)]

/-- The resolved section of a document called `key`, at a path.  A missing section and one that is
no container are reported and give no tokens. -/
def resolveSection (document : Document) (key : String) (path : TokenPath) :
    Journaled (Fields Json) :=
  match (Fields.get? document key).bind Json.toOption with
  | none => do
      Journaled.report (.sectionMissing key)
      return []
  | some raw =>
      match Node.ofJson raw with
      | .container children => Journaled.within [("section", .str key)] do
          let entries ← Journaled.ofLogged (Resolve.nodeEntries path children)
          Journaled.report (.sectionProcessed entries.length)
          return entries
      | _ => do
          Journaled.report (.sectionNotAContainer key)
          return []

/-- The resolved section of a pass. -/
def resolvePass (settings : Settings) (document : Document) (pass : ThemePass) :
    Journaled (Fields Json) :=
  resolveSection document (settings.sectionKey pass.path) pass.path

/-- The theme of a document. -/
def ofDocument (settings : Settings) (document : Document) : Journaled Theme := do
  let primitive ← resolvePass settings document .primitive
  let semantic ← resolvePass settings document .semantic
  let light ← resolvePass settings document .light
  let dark ← resolvePass settings document .dark
  Journaled.report (.themeCreated settings.tokenFormat primitive.length semantic.length)
  return { primitive, semantic, light, dark }

end Theme
end DesignTokens
