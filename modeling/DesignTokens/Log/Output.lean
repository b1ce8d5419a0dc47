import DesignTokens.Json.Compact
import DesignTokens.Settings.Basic
import DesignTokens.World

/-!
# Log output

Records that are important enough are written to the error stream, and to a file if the settings
name one.  On its way to a line a record passes through several stages, of which the last one writes
it.
-/

namespace DesignTokens

/-- A stage that a record passes through. -/
inductive LogStage
  /-- Add the bound entries. -/
  | context
  /-- Add the level. -/
  | level
  /-- Add the name of the logger. -/
  | logger
  /-- Add the time. -/
  | time
  /-- Add the call stack, if it is asked for. -/
  | stack
  /-- Add the fault that is being handled, if it is asked for. -/
  | fault
  /-- Write a JSON object. -/
  | json
  /-- Write for people. -/
  | console
  deriving DecidableEq, Repr

namespace Level

/-- Whether records of a level are written under a threshold. -/
def reaches (level threshold : Level) : Bool := threshold.rank ≤ level.rank

end Level

namespace Record

/-- What the stages use up: the time that a record comes with, and what it says about the call stack
and the fault that are asked for. -/
def consumed : List String := ["timestamp", "stack_info", "exc_info"]

/-- What a record amounts to on a line, time aside. -/
def line (logger : String) (record : Record) : Fields Json :=
  Fields.put (Fields.without record.entries consumed) "logger" (.str logger)

/-- The records that are written under a threshold. -/
def written (threshold : Level) (records : List Record) : List Record :=
  records.filter fun record => record.event.level.reaches threshold

end Record

namespace LogFormat

/-- The stages in order. -/
def stages : LogFormat → List LogStage
  | json => [.context, .level, .logger, .time, .stack, .fault, .json]
  | console => [.context, .level, .logger, .time, .stack, .console]

/-- What a line for people says in words, or on lines of its own. -/
def spelled : List String := ["event", "level", "logger", "stack", "exception"]

/-- A line for people: the level and the name of the event, the logger, and everything else.  A call
stack and a fault follow on lines of their own, with a rule between them. -/
def consoleText (line : Fields Json) : String :=
  let part := fun key => (Fields.get? line key).elim "" Json.describe
  let others := (Fields.without line spelled).map fun entry =>
    " " ++ entry.1 ++ "=" ++ entry.2.describe
  let below := fun key =>
    ((Fields.get? line key).bind Json.toOption).toList.map fun value => "\n" ++ value.describe
  let rule := "\n\n" ++ String.ofList (List.replicate 79 '=') ++ "\n"
  "[" ++ part "level" ++ "] " ++ part "event" ++ " [" ++ part "logger" ++ "]" ++
    String.join others ++ String.intercalate rule (below "stack" ++ below "exception")

/-- A line in a format. -/
def render : LogFormat → Fields Json → String
  | json, line => (Json.object line).compact
  | console, line => consoleText line

end LogFormat

namespace LogFile

/-- The file that a path means from the working directory. -/
def locate (path : FilePath) : Program FilePath := do
  return FilePath.absolute ⟨.root, (← get).here⟩ path

/-- Make the directories that the log file lies in, and the file itself unless it is there. -/
def prepare (path : FilePath) : Program Unit := do
  Program.makeDirectories path.parent
  Program.append (← locate path) []

/-- Add lines to the log file. -/
def add (path : FilePath) (lines : List String) : Program Unit := do
  Program.append (← locate path) (Text.Utf8.encode (String.join (lines.map (· ++ "\n"))))

/-- Whether an event reports a module that has been written over a file. -/
def isReplacedBy (file : FilePath) : Event → Bool
  | .themeGenerated output _ => output = file.text
  | _ => false

/-- The records whose lines are in a log file behind a run: a module that has been written over the
file has taken the place of the lines before it. -/
def remaining (file : FilePath) (records : List Record) : List Record :=
  records.foldl (fun earlier record =>
    if isReplacedBy file record.event then [record] else earlier ++ [record]) []

end LogFile
end DesignTokens
