import DesignTokens.Command.Interface
import DesignTokens.Generation
import DesignTokens.Settings.Sources

/-!
# Running commands

A command line is run in a shell: a world with environment variables, and the settings that an
earlier run has loaded.  What cannot be read in the settings file is warned of when settings are
loaded.  Failures are told to the user and give the exit code one; every other fault ends the run as
it is.  The log file is kept around such a run, and not here.
-/

namespace DesignTokens

/-- What command lines are run in. -/
structure Shell where
  /-- Files, working directory and journal. -/
  world : World
  /-- Environment variables. -/
  environment : Fields String
  /-- The settings, once they have been loaded. -/
  settings : Option Settings

/-- How a run ends. -/
inductive Ending
  /-- With an exit code. -/
  | returned (code : Nat)
  /-- Before it begins, with an exit code. -/
  | exited (code : Nat)
  /-- With a fault. -/
  | failed (fault : Fault)

/-- What a run shows. -/
structure RunResult where
  /-- How it ends. -/
  ending : Ending
  /-- What it writes to the output. -/
  output : String
  /-- What it writes to the error stream. -/
  errors : String
  /-- The level and the format that logging is set to, if it is set. -/
  logging : List (Level × LogFormat)

namespace Shell

/-- The file that settings are read from besides the environment. -/
def settingsFile : FilePath := .ofText ".env"

/-- The text of the settings file, if there is one. -/
def settingsText (world : World) : Except Fault (Option String) :=
  match world.files.bytes? world.here settingsFile with
  | none => .ok none
  | some bytes => (Document.textOfBytes bytes).map some

/-- The sources of settings that a world, some variables and some given values amount to. -/
def sourcesFrom (world : World) (environment : Fields String) (given : Fields Json) :
    Except Fault Settings.Sources := do
  let file ← settingsText world
  return { given, environment, file }

/-- The settings that a world, some variables and some given values amount to. -/
def settingsFrom (world : World) (environment : Fields String) (given : Fields Json) :
    Except Fault Settings := do
  let sources ← sourcesFrom world environment given
  (Settings.load sources).mapError .settings

/-- The settings of a shell, which are loaded once. -/
def loadSettings (shell : Shell) : Except Fault (Settings × Shell) :=
  match shell.settings with
  | some settings => .ok (settings, shell)
  | none => do
      let settings ← settingsFrom shell.world shell.environment []
      return (settings, { shell with settings := some settings })

/-- What loading the settings of a world warns of. -/
def warningsFrom (world : World) (environment : Fields String) (given : Fields Json) :
    List String :=
  match sourcesFrom world environment given with
  | .ok sources => sources.warnings
  | .error _ => []

/-- What is written to the error stream before a run: warnings about the settings file, unless the
settings have been loaded earlier. -/
def warningText (shell : Shell) : String :=
  if shell.settings.isSome then ""
  else Grammar.lines (warningsFrom shell.world shell.environment [])

end Shell

namespace Command

/-- An exit code and a text for the output. -/
abbrev Told := Nat × String

/-- Tell a failure to the user. -/
def tellFailure (program : Program Told) : Program Told :=
  tryCatch program fun fault =>
    match fault with
    | .failure failure => pure (1, "Error: " ++ failure.message ++ "\n")
    | fault => throw fault

/-- The path from the root to what the user names from a directory. -/
def resolvePath (here : Location) (path : FilePath) : Program FilePath :=
  if path.names.any fun name => name.contains '\x00' then Program.fail .nulInPath
  else pure (FilePath.absolute ⟨.root, here⟩ path)

/-- Where a module goes: to a path that is given and not empty, or else where the settings say. -/
def outputPath (settings : Settings) : Option String → FilePath
  | some text => if text.isEmpty then settings.defaultOutput else .ofText text
  | none => settings.defaultOutput

/-- Convert a document. -/
def runConvert (settings : Settings) (input : String) (output : Option String) (force : Bool) :
    Program Told := do
  let here := (← get).here
  let input ← resolvePath here (.ofText input)
  let output ← resolvePath here (outputPath settings output)
  tellFailure do
    let generation ← Generation.generate settings input output force
    return (0,
      "✓ Theme tokens generated at " ++ generation.output.text ++ "\n" ++
        "  Primitive groups: " ++ toString generation.theme.primitive.length ++ "\n" ++
        "  Semantic groups: " ++ toString generation.theme.semantic.length ++ "\n")

/-- Validate a document. -/
def runValidate (input : String) : Program Told :=
  let path := FilePath.ofText input
  tellFailure do
    match ← Generation.validateFile path with
    | .valid => return (0, "✓ " ++ path.text ++ " is a valid token document\n")
    | .invalid location reason =>
        return (1,
          "✗ Invalid token structure at " ++ TokenPath.location location ++ ": " ++ reason ++ "\n")

/-- The version of the program. -/
def versionText : String := "0.1.0"

/-- Do what a command asks for. -/
def perform (settings : Settings) : Command → Program Told
  | overview => pure (0, programGrammar.helpText)
  | convert input output force => runConvert settings input output force
  | validate input => runValidate input
  | version => pure (0, "tokenpress v" ++ versionText ++ "\n")

end Command

namespace Shell

/-- Perform a command with settings, and set logging up for it.  Some `errors` have been written
before. -/
def perform (shell : Shell) (settings : Settings) (errors : String) (invocation : Invocation) :
    RunResult × Shell :=
  let logging := [(invocation.logLevel.getD settings.logLevel, settings.logFormat)]
  let (outcome, world) := ((invocation.command.perform settings).run shell.world)
  let shell := { shell with world }
  match outcome with
  | .ok (code, output) => (⟨.returned code, output, errors, logging⟩, shell)
  | .error fault => (⟨.failed fault, "", errors, logging⟩, shell)

/-- Run a command line, without its log file. -/
def run (shell : Shell) (arguments : List String) : RunResult × Shell :=
  match Command.parse arguments with
  | .error early => (⟨.exited early.code, early.output, early.errors, []⟩, shell)
  | .ok ⟨.overview, _⟩ => (⟨.returned 0, Command.programGrammar.helpText, "", []⟩, shell)
  | .ok invocation =>
      let errors := shell.warningText
      match shell.loadSettings with
      | .error fault => (⟨.failed fault, "", errors, []⟩, shell)
      | .ok (settings, shell) => shell.perform settings errors invocation

end Shell
end DesignTokens
