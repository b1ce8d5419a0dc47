import DesignTokens.Preset
import DesignTokens.Validation
import DesignTokens.World

/-!
# Generating preset modules

A token document is read, validated, resolved to a theme and written as a preset module.  Each stage
is also offered on its own.
-/

namespace DesignTokens

/-- A preset module that has been written. -/
structure Generation where
  /-- The document. -/
  input : FilePath
  /-- The module file. -/
  output : FilePath
  /-- The theme. -/
  theme : Theme
  /-- The text of the module. -/
  content : String

namespace Generation

/-- The size of the module file. -/
def size (generation : Generation) : Nat := (Text.Utf8.encode generation.content).length

/-! ## Documents in memory -/

/-- The verdict on a value, which is reported if it is bad. -/
def validate (value : Json) : Journaled Verdict := do
  let verdict ← ExceptT.mk (pure (Validation.verdict value))
  Journaled.ofLogged ⟨verdict, verdict.events⟩

/-- The theme of a document that must be valid. -/
def themeOf (settings : Settings) (document : Document) : Journaled Theme := do
  let verdict ← validate (.object document)
  match verdict.failure? with
  | some failure => throw (.failure failure)
  | none => Theme.ofDocument settings document

/-- The module for the document that a text denotes. -/
def compile (settings : Settings) (source sourceName text : String) : Journaled String := do
  let document ← ExceptT.mk (pure (Document.ofText source text))
  let theme ← themeOf settings document
  return Preset.text settings theme sourceName

/-! ## Documents in files -/

/-- The document in a file. -/
def readDocument (input : FilePath) : Program Document := do
  match ← Program.bytes? input with
  | none => Program.fail (.failure (.tokenFileNotFound input.text))
  | some bytes => Program.ofExcept (Document.ofBytes input.text bytes)

/-- The verdict on the document in a file. -/
def validateFile (input : FilePath) : Program Verdict := do
  let document ← readDocument input
  Program.ofJournaled (validate (.object document))

/-- The theme of the document in a file. -/
def themeOfFile (settings : Settings) (input : FilePath) : Program Theme := do
  let document ← readDocument input
  Program.ofJournaled (themeOf settings document)

/-- Write the module for the document in a file, and report it. -/
def write (settings : Settings) (input output : FilePath) : Program Generation := do
  let theme ← themeOfFile settings input
  let content := Preset.text settings theme input.name
  Program.write output (Text.Utf8.encode content)
  let generation : Generation := { input, output, theme, content }
  Program.ofJournaled (Journaled.report (.themeGenerated output.text generation.size))
  return generation

/-- Write the module for the document in a file.  An output that exists is overwritten only by
`force`, and is looked for before anything else. -/
def generate (settings : Settings) (input output : FilePath) (force : Bool) :
    Program Generation := do
  if (← Program.hasEntry output) && !force then
    Program.fail (.failure (.outputExists output.text))
  else
    Program.within [("input_file", .str input.text)] (write settings input output)

end Generation
end DesignTokens
