import DesignTokens.Json.Reader
import DesignTokens.Settings.Basic
import DesignTokens.Settings.EnvironmentFile

/-!
# Sources of settings

Settings come from values that are given, from environment variables, and from an environment file;
of several sources for a field the first of these prevails.  Fields are found whatever the case of
their names, and variables carry a prefix.  A collection is written as JSON in a variable, and the
entries of all sources are joined, those of prevailing sources last.
-/

namespace DesignTokens
namespace Settings

/-- The fields of settings, in order. -/
def fieldNames : List String :=
  ["app_name", "app_version", "environment", "log_level", "log_format", "log_file", "token_format",
   "preset_package", "base_preset", "base_preset_module", "component_imports", "default_output"]

/-- The field that is a collection. -/
def collectionField : String := "component_imports"

/-- What the names of variables begin with. -/
def variablePrefix : String := "tokenpress_"

/-- A character of a name without regard to case; the Kelvin sign is a capital k. -/
def lowerChar (c : Char) : Char := if c = '\u212A' then 'k' else c.toLower

/-- A name without regard to case. -/
def lowerName (name : String) : String := String.ofList (name.toList.map lowerChar)

/-- The value of the last variable for a field. -/
def valueFor? (assigned : Fields (Option String)) (field : String) : Option String :=
  let named := assigned.filter fun entry => lowerName entry.1 = variablePrefix ++ field
  (named.getLast?.map Prod.snd).join

/-- Where variables come from. -/
inductive VariableSource
  /-- The environment. -/
  | environment
  /-- The environment file. -/
  | file
  deriving DecidableEq, Repr

namespace VariableSource

/-- The name of a source. -/
def text : VariableSource → String
  | environment => "EnvSettingsSource"
  | file => "DotEnvSettingsSource"

end VariableSource

/-- The value that a variable gives to a field.  A collection that is written as null gives none. -/
def decode (source : VariableSource) (field value : String) :
    Except SettingsFault (Option Json) :=
  if field = collectionField then
    match Json.read value with
    | .ok value => .ok value.toOption
    | .error _ => .error (.undecodable field source.text)
  else .ok (some (.str value))

/-- The values that variables give to some fields. -/
def ofVariables (source : VariableSource) (assigned : Fields (Option String)) :
    List String → Except SettingsFault (Fields Json)
  | [] => .ok []
  | field :: rest => do
      let here ←
        match valueFor? assigned field with
        | none => pure none
        | some value => decode source field value
      let others ← ofVariables source assigned rest
      return (match here with
        | none => []
        | some value => [(field, value)]) ++ others

mutual

/-- The second value, joined with the first where both are objects. -/
def overlay (lower : Json) : Json → Json
  | .object entries =>
      match lower with
      | .object base => .object (overlayEntries base entries)
      | _ => .object entries
  | higher => higher

/-- Assign entries, joining objects with the objects they replace. -/
def overlayEntries (base : Fields Json) : List (String × Json) → Fields Json
  | [] => base
  | (key, value) :: rest =>
      let joined :=
        match Fields.get? base key with
        | some old => overlay old value
        | none => value
      overlayEntries (Fields.put base key joined) rest

end

/-- Where settings come from. -/
structure Sources where
  /-- Values that are given. -/
  given : Fields Json
  /-- Environment variables. -/
  environment : Fields String
  /-- The text of the environment file, if there is one. -/
  file : Option String

namespace Sources

/-- The variables of the environment file. -/
def fileVariables (sources : Sources) : Fields (Option String) :=
  match sources.file with
  | none => []
  | some text => EnvironmentFile.read sources.environment text

/-- The variables of the environment. -/
def environmentVariables (sources : Sources) : Fields (Option String) :=
  sources.environment.map fun entry => (entry.1, some entry.2)

/-- The given values by field.  Of several values for a field the first one counts. -/
def givenFields (sources : Sources) : Fields Json :=
  fieldNames.filterMap fun field =>
    (sources.given.find? fun entry => lowerName entry.1 = field).map fun entry => (field, entry.2)

/-- The values of all fields that any source gives. -/
def entries (sources : Sources) : Except SettingsFault (Fields Json) := do
  let environment ← ofVariables .environment sources.environmentVariables fieldNames
  let file ← ofVariables .file sources.fileVariables fieldNames
  return overlayEntries file (overlayEntries environment sources.givenFields)

/-- Warnings about the environment file: the lines of what cannot be read in it. -/
def warnings (sources : Sources) : List String :=
  (sources.file.elim [] EnvironmentFile.unreadableLines).map fun number =>
    "python-dotenv could not parse statement starting at line " ++ toString number

end Sources

/-- The settings of some sources. -/
def load (sources : Sources) : Except SettingsFault Settings := do
  ofEntries (← sources.entries)

end Settings
end DesignTokens
