import DesignTokens.Literal
import DesignTokens.Theme

/-!
# Preset modules

A theme is written as a script module that extends a preset: a comment that names the document, the
imports, and one definition with the primitive tokens, the semantic tokens, and the configured
components.
-/

namespace DesignTokens
namespace Preset

/-- The line that imports a binding from a module. -/
def importLine (binding source : List Char) : List Char :=
  "import ".toList ++ binding ++ " from '".toList ++ source ++ ['\'']

/-- The import lines. -/
def importLines (settings : Settings) : List (List Char) :=
  importLine "\x7b definePreset \x7d".toList settings.presetPackage.toList ::
    importLine settings.basePreset.toList settings.basePresetModule.toList ::
    settings.componentImports.map fun entry => importLine entry.1.toList entry.2.toList

/-- The comment in front of a module. -/
def header (sourceName : String) : List Char :=
  "// Generated from ".toList ++ sourceName.toList ++ ['\n'] ++
    "// Do not edit by hand: regenerate with \x60tokenpress convert\x60.\n".toList

/-- The blanks in front of an entry of the definition. -/
def inner : List Char := Literal.spaces Literal.step

/-- The line of a component. -/
def componentLine (name : String) : List Char :=
  inner ++ inner ++ Literal.key name ++ [':', ' '] ++ name.toList

/-- The components, if there are any. -/
def componentEntry (settings : Settings) : List (List Char) :=
  if settings.componentImports.isEmpty then []
  else
    [inner ++ "components: \x7b\n".toList ++
      Literal.separated [',', '\n'] ((Fields.keys settings.componentImports).map componentLine) ++
      ['\n'] ++ inner ++ ['}']]

/-- The entries of the definition. -/
def entries (settings : Settings) (theme : Theme) : List (List Char) :=
  (inner ++ "primitive: ".toList ++ Literal.object Literal.step (.object theme.primitive)) ::
    (inner ++ "semantic: ".toList ++
      Literal.object Literal.step (.object theme.semanticWithSchemes)) ::
    componentEntry settings

/-- The definition and the export. -/
def definition (settings : Settings) (theme : Theme) : List Char :=
  "const Default = definePreset(".toList ++ settings.basePreset.toList ++ ", \x7b\n".toList ++
    Literal.separated [',', '\n'] (entries settings theme) ++ "\n\x7d);\n".toList ++
    "\nexport default \x7b\n".toList ++ inner ++ "preset: Default,\n\x7d;\n".toList

/-- The module for a theme. -/
def moduleChars (settings : Settings) (theme : Theme) (sourceName : String) : List Char :=
  header sourceName ++ ['\n'] ++ Literal.separated ['\n'] (importLines settings) ++ ['\n', '\n'] ++
    definition settings theme

/-- The module for a theme as a text. -/
def text (settings : Settings) (theme : Theme) (sourceName : String) : String :=
  String.ofList (moduleChars settings theme sourceName)

end Preset
end DesignTokens
