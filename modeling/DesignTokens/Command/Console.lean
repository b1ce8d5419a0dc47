import DesignTokens.Command.Run
import DesignTokens.Log.Output

/-!
# Running at a console

At a console the records of a run go to the error stream and to the log file, if there is one.  The
log file is made ready after the settings have been loaded and before the command begins, so that a
run whose log file cannot be written does nothing else.
-/

namespace DesignTokens

namespace RunResult

/-- The lines that are logged about a run. -/
def lines (result : RunResult) (records : List Record) : List String :=
  result.logging.flatMap fun (threshold, format) =>
    (Record.written threshold records).map fun record =>
      format.render (record.line record.event.logger)

/-- A run that a fault of its log file ends, after some `errors` have been written. -/
def ofFault (errors : String) (fault : Fault) : RunResult := ⟨.failed fault, "", errors, []⟩

/-- The exit code of a run. -/
def code (result : RunResult) : Nat :=
  match result.ending with
  | .returned code => code
  | .exited code => code
  | .failed _ => 1

/-- What is written to the error stream about a run and its records. -/
def errorText (result : RunResult) (records : List Record) : String :=
  let fault :=
    match result.ending with
    | .failed fault => [fault.message]
    | _ => []
  result.errors ++ Grammar.lines (result.lines records ++ fault)

end RunResult

namespace Command

/-- The paths that a command looks at. -/
def paths (settings : Settings) : Command → List FilePath
  | convert input output _ => [.ofText input, outputPath settings output]
  | validate input => [.ofText input]
  | _ => []

end Command

namespace Shell

/-- The settings under which a command line is run, unless it ends without them. -/
def settingsFor? (shell : Shell) (arguments : List String) : Option (Command × Settings) :=
  match Command.parse arguments with
  | .ok ⟨.overview, _⟩ => none
  | .ok invocation => shell.loadSettings.toOption.map fun loaded => (invocation.command, loaded.1)
  | .error _ => none

/-- The log file of a command line, if it has one. -/
def logFile? (shell : Shell) (arguments : List String) : Option FilePath :=
  (shell.settingsFor? arguments).bind fun (_, settings) => settings.logFile

/-- The paths that a command line looks at besides the settings file. -/
def paths (shell : Shell) (arguments : List String) : List FilePath :=
  (shell.settingsFor? arguments).elim [] fun (command, settings) =>
    settings.logFile.toList ++ command.paths settings

/-- Run a program in the world of a shell. -/
def carryOut {α : Type} (shell : Shell) (program : Program α) : Except Fault α × Shell :=
  let (outcome, world) := program.run shell.world
  (outcome, { shell with world })

/-- The shell with its settings loaded, if they can be. -/
def loaded (shell : Shell) : Shell :=
  match shell.loadSettings with
  | .ok (_, loaded) => loaded
  | .error _ => shell

/-- How the way to the command of a command line ends, and the shell in which the command begins: if
there is a log file, the settings have been loaded and the file has been made ready. -/
def ready (shell : Shell) (arguments : List String) : Except Fault Unit × Shell :=
  match shell.logFile? arguments with
  | none => (.ok (), shell)
  | some path => shell.loaded.carryOut (LogFile.prepare path)

/-- Add the lines of a run to the log file: those of the records that the shell `ready` did not have
yet. -/
def log (ready after : Shell) (path : FilePath) (result : RunResult) : Shell :=
  let file := FilePath.absolute ⟨.root, after.world.here⟩ path
  let records := after.world.journal.records.drop ready.world.journal.records.length
  (after.carryOut (LogFile.add path (result.lines (LogFile.remaining file records)))).2

/-- Run a command line at a console. -/
def runAtConsole (shell : Shell) (arguments : List String) : RunResult × Shell :=
  match shell.ready arguments with
  | (.error fault, stopped) => (.ofFault shell.warningText fault, stopped)
  | (.ok (), ready) =>
      let (result, after) := ready.run arguments
      match shell.logFile? arguments with
      | none => (result, after)
      | some path =>
          ({ result with errors := shell.warningText ++ result.errors },
            log ready after path result)

end Shell
end DesignTokens
