import DesignTokens.Command.Grammar
import DesignTokens.Log.Event

/-!
# The command line interface

The program converts a document, validates one, or shows its version.
-/

namespace DesignTokens

/-- What the program is asked to do. -/
inductive Command
  /-- Show how to call the program. -/
  | overview
  /-- Write the module for a document. -/
  | convert (input : String) (output : Option String) (force : Bool)
  /-- Validate a document. -/
  | validate (input : String)
  /-- Show the version. -/
  | version
  deriving DecidableEq, Repr

/-- A command, and the level that is logged if not the configured one. -/
structure Invocation where
  /-- What to do. -/
  command : Command
  /-- The least important level that is logged. -/
  logLevel : Option Level
  deriving DecidableEq, Repr

/-- How a run ends before it begins. -/
structure EarlyExit where
  /-- The exit code. -/
  code : Nat
  /-- What is written to the output. -/
  output : String
  /-- What is written to the error stream. -/
  errors : String
  deriving DecidableEq, Repr

namespace Command

/-- The switch that shows a help text. -/
def helpSwitch : Switch := ⟨["-h", "--help"], .help⟩

/-- The names of the levels. -/
def levelNames : List String := Level.all.map Level.constant

/-- The switch that sets the level that is logged. -/
def logLevelSwitch : Switch := ⟨["--log-level"], .value levelNames⟩

/-- The names of the commands. -/
def commandNames : List String := ["convert", "validate", "version"]

/-- The line about the help switch in a help text. -/
def helpLine : String := "  -h, --help            show this help message and exit"

/-- The command line of the program. -/
def programGrammar : Grammar where
  program := "tokenpress"
  usage :=
    ["usage: tokenpress [-h] [--log-level \x7bDEBUG,INFO,WARNING,ERROR,CRITICAL\x7d]",
     "                  \x7bconvert,validate,version\x7d ..."]
  details :=
    ["tokenpress - Compile design tokens into PrimeUIX theme presets",
     "",
     "positional arguments:",
     "  \x7bconvert,validate,version\x7d",
     "                        Available commands",
     "    convert             Convert a token document into a preset module",
     "    validate            Check the structure of a token document",
     "    version             Show version",
     "",
     "options:",
     helpLine,
     "  --log-level \x7bDEBUG,INFO,WARNING,ERROR,CRITICAL\x7d",
     "                        Override the configured log level"]
  switches := [helpSwitch, logLevelSwitch]
  operand := .command commandNames

/-- The command line behind `convert`. -/
def convertGrammar : Grammar where
  program := "tokenpress convert"
  usage := ["usage: tokenpress convert [-h] [--output OUTPUT] [--force] input"]
  details :=
    ["positional arguments:",
     "  input                 Path to tokens.json",
     "",
     "options:",
     helpLine,
     "  --output OUTPUT, -o OUTPUT",
     "                        Output path (default: assets/themes/theme-tokens.ts)",
     "  --force, -f           Overwrite the output file if it exists"]
  switches := [helpSwitch, ⟨["--output", "-o"], .value []⟩, ⟨["--force", "-f"], .flag⟩]
  operand := .single "input"

/-- The command line behind `validate`. -/
def validateGrammar : Grammar where
  program := "tokenpress validate"
  usage := ["usage: tokenpress validate [-h] input"]
  details :=
    ["positional arguments:",
     "  input       Path to tokens.json",
     "",
     "options:",
     "  -h, --help  show this help message and exit"]
  switches := [helpSwitch]
  operand := .single "input"

/-- The command line behind `version`. -/
def versionGrammar : Grammar where
  program := "tokenpress version"
  usage := ["usage: tokenpress version [-h]"]
  details := ["options:", "  -h, --help  show this help message and exit"]
  switches := [helpSwitch]
  operand := .none

/-- How a run ends that a command line stops. -/
def stopped (grammar : Grammar) : Stop → EarlyExit
  | .help => ⟨0, grammar.helpText, ""⟩
  | .fault fault => ⟨2, "", grammar.faultText fault⟩

/-- Read a command line. -/
def readLine (grammar : Grammar) (arguments : List String) : Except EarlyExit Reading :=
  (grammar.read arguments).mapError (stopped grammar)

/-- The operand of a command line that has exactly one. -/
def soleOperand (reading : Reading) : String := (reading.operand.getD []).headD ""

/-- Read the arguments behind the name of a command. -/
def readCommand (name : String) (arguments : List String) :
    Except EarlyExit (Command × List String) :=
  match name with
  | "convert" => do
      let reading ← readLine convertGrammar arguments
      return (.convert (soleOperand reading) (reading.value? "--output") (reading.isOn "--force"),
        reading.extras)
  | "validate" => do
      let reading ← readLine validateGrammar arguments
      return (.validate (soleOperand reading), reading.extras)
  | _ => do
      let reading ← readLine versionGrammar arguments
      return (.version, reading.extras)

/-- Read the arguments of the program. -/
def parse (arguments : List String) : Except EarlyExit Invocation := do
  let reading ← readLine programGrammar arguments
  let (command, extras) ←
    match reading.operand.getD [] with
    | [] => pure (.overview, [])
    | name :: rest => readCommand name rest
  let unplaced := reading.extras ++ extras
  let logLevel := (reading.value? "--log-level").bind Level.ofConstant?
  if unplaced.isEmpty then pure { command, logLevel }
  else .error (stopped programGrammar (.fault (.unrecognized unplaced)))

end Command
end DesignTokens
