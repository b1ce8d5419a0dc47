import DesignTokens.Failure
import DesignTokens.File.Path
import DesignTokens.Log.Event
import DesignTokens.Text.Blank

/-!
# Settings

Settings say which sections of a document are read, what the written module imports, where it goes,
and what is logged.  They are checked field by field: every field without an admissible value is
reported together with the rule it breaks.
-/

namespace DesignTokens

/-- Where the program runs. -/
inductive Environment
  /-- On a developer's machine. -/
  | development
  /-- Under test. -/
  | testing
  /-- In earnest. -/
  | production
  deriving DecidableEq, Repr

namespace Environment

/-- The name of an environment. -/
def text : Environment → String
  | development => "development"
  | testing => "testing"
  | production => "production"

/-- The environment of a name. -/
def ofText? (name : String) : Option Environment :=
  [development, testing, production].find? fun environment => environment.text = name

end Environment

/-- How log records are written. -/
inductive LogFormat
  /-- One JSON object a line. -/
  | json
  /-- For people. -/
  | console
  deriving DecidableEq, Repr

namespace LogFormat

/-- The name of a format. -/
def text : LogFormat → String
  | json => "json"
  | console => "console"

/-- The format of a name. -/
def ofText? (name : String) : Option LogFormat :=
  [json, console].find? fun format => format.text = name

/-- The format that an environment asks for. -/
def default : Environment → LogFormat
  | .production => json
  | _ => console

end LogFormat

/-- The settings of the program. -/
structure Settings where
  /-- Name of the program. -/
  appName : String
  /-- Version of the program. -/
  appVersion : String
  /-- Where the program runs. -/
  environment : Environment
  /-- The least important level that is logged. -/
  logLevel : Level
  /-- How log records are written. -/
  logFormat : LogFormat
  /-- A file that log records are also written to. -/
  logFile : Option FilePath
  /-- The first part of the section names of a document. -/
  tokenFormat : String
  /-- The package that defines presets. -/
  presetPackage : String
  /-- The preset that is extended. -/
  basePreset : String
  /-- The module of the preset that is extended. -/
  basePresetModule : String
  /-- Component presets and their modules. -/
  componentImports : Fields String
  /-- Where the module goes if nothing else is said. -/
  defaultOutput : FilePath
  deriving DecidableEq, Repr

namespace Settings

/-- Whether the program runs in earnest. -/
def isProduction (settings : Settings) : Bool := settings.environment = .production

/-- The name of a section of a document. -/
def sectionKey (settings : Settings) (parts : List String) : String :=
  String.intercalate "/" (settings.tokenFormat :: parts)

/-- The first part of section names, without the blanks and then the slashes around it; nothing
remains of a text that has only these. -/
def canonicalFormat? (text : String) : Option String :=
  let stem := Text.trim (fun c => c = '/') (Text.trim Text.isBlank text.toList)
  if stem.isEmpty then none else some (String.ofList stem)

/-! ## Rules for values -/

/-- A rule gives a value or its own name. -/
abbrev Rule (α : Type) := Json → Except String α

namespace Rule

/-- The value is a text. -/
def text : Rule String
  | .scalar (.str value) => .ok value
  | _ => .error "string_type"

/-- The value is a text that names something. -/
def named {α : Type} (find : String → Option α) (rule : String) : Rule α
  | .scalar (.str value) => (find value).elim (.error rule) .ok
  | _ => .error rule

/-- The value is null or obeys a rule. -/
def optional {α : Type} (rule : Rule α) : Rule (Option α)
  | .null => .ok none
  | value => (rule value).map some

/-- The value is a text that is read as a path. -/
def path : Rule FilePath
  | .scalar (.str value) => .ok (.ofText value)
  | _ => .error "path_type"

/-- The value is the first part of section names. -/
def tokenFormat : Rule String
  | .scalar (.str value) => (canonicalFormat? value).elim (.error "value_error") .ok
  | _ => .error "string_type"

end Rule

/-! ## Checking -/

/-- Work that collects the fields which break a rule, each with the rule. -/
abbrev Check := StateM (List (String × String))

/-- The value of a field, or its default if the field is missing.  If the field breaks its rule the
default stands in for it. -/
def check {α : Type} (entries : Fields Json) (field : String) (rule : Rule α) (default : α) :
    Check α :=
  match Fields.get? entries field with
  | none => pure default
  | some value =>
      match rule value with
      | .ok value => pure value
      | .error broken => do
          modify (· ++ [(field, broken)])
          return default

/-- The texts of a collection; a member that is no text breaks a rule of its own. -/
def checkMembers (field : String) : List (String × Json) → Check (Fields String)
  | [] => pure []
  | (name, member) :: rest => do
      let here : Fields String ←
        match member with
        | .scalar (.str value) => pure [(name, value)]
        | _ => do
            modify (· ++ [(field ++ "." ++ name, "string_type")])
            pure []
      let others ← checkMembers field rest
      pure (here ++ others)

/-- The texts of a field that is a collection. -/
def checkCollection (entries : Fields Json) (field : String) : Check (Fields String) :=
  match Fields.get? entries field with
  | none => pure []
  | some (.object members) => checkMembers field members
  | some _ => do
      modify (· ++ [(field, "dict_type")])
      return []

/-- The settings that some entries give, with the defaults for missing fields. -/
def checkAll (entries : Fields Json) : Check Settings := do
  let appName ← check entries "app_name" Rule.text "tokenpress"
  let appVersion ← check entries "app_version" Rule.text "0.1.0"
  let environment ←
    check entries "environment" (Rule.named Environment.ofText? "enum") .development
  let logLevel ← check entries "log_level" (Rule.named Level.ofConstant? "enum") .info
  let logFormat ←
    check entries "log_format" (Rule.optional (Rule.named LogFormat.ofText? "literal_error")) none
  let logFile ← check entries "log_file" (Rule.optional Rule.path) none
  let tokenFormat ← check entries "token_format" Rule.tokenFormat "aura"
  let presetPackage ← check entries "preset_package" Rule.text "@primeuix/themes"
  let basePreset ← check entries "base_preset" Rule.text "Aura"
  let basePresetModule ← check entries "base_preset_module" Rule.text "@primeuix/themes/aura"
  let componentImports ← checkCollection entries "component_imports"
  let defaultOutput ←
    check entries "default_output" Rule.path (.ofText "assets/themes/theme-tokens.ts")
  return {
    appName, appVersion, environment, logLevel, logFile, tokenFormat, presetPackage, basePreset
    basePresetModule, componentImports, defaultOutput
    logFormat := logFormat.getD (.default environment) }

/-- The settings that some entries give, unless a field breaks its rule. -/
def ofEntries (entries : Fields Json) : Except SettingsFault Settings :=
  let (settings, problems) := (checkAll entries).run []
  if problems.isEmpty then .ok settings else .error (.invalid problems)

end Settings
end DesignTokens
