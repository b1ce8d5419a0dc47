import DesignTokens.Text.Digit
import DesignTokens.Text.Quoted

/-!
# Command line grammar

A command line is read from left to right.  An argument that begins with a dash is a switch, unless
it is a lone dash, looks like a negative number, contains a space, or stands behind two lone
dashes.  A switch may be abbreviated as long as it is not ambiguous; its value follows as the next
argument, behind an equals sign, or directly behind a short form, and short flags may be joined.
All other arguments are operands.  What finds no place is handed back.
-/

namespace DesignTokens

/-- What a switch does. -/
inductive SwitchEffect
  /-- It is on or off. -/
  | flag
  /-- It shows a help text. -/
  | help
  /-- It takes a value, one of some choices if there are any. -/
  | value (choices : List String)
  deriving DecidableEq, Repr

/-- An argument that begins with a dash. -/
structure Switch where
  /-- Its forms, the first of which is its name. -/
  forms : List String
  /-- What it does. -/
  effect : SwitchEffect
  deriving DecidableEq, Repr

namespace Switch

/-- The first form. -/
def name (switch : Switch) : String := switch.forms.headD ""

/-- All forms. -/
def title (switch : Switch) : String := String.intercalate "/" switch.forms

/-- Whether the switch takes a value. -/
def takesValue (switch : Switch) : Bool :=
  match switch.effect with
  | .value _ => true
  | _ => false

end Switch

/-- What operands a command line takes. -/
inductive Operand
  /-- None. -/
  | none
  /-- Exactly one, called by this name. -/
  | single (name : String)
  /-- A command among some choices, with everything behind it. -/
  | command (choices : List String)
  deriving DecidableEq, Repr

/-- What is wrong with a command line. -/
inductive UsageFault
  /-- An abbreviation stands for several switches. -/
  | ambiguous (argument : String) (forms : List String)
  /-- A switch lacks its value. -/
  | valueExpected (title : String)
  /-- A switch that takes no value has one. -/
  | valueIgnored (title value : String)
  /-- A value is none of the choices. -/
  | invalidChoice (title value : String) (choices : List String)
  /-- An operand is missing. -/
  | required (name : String)
  /-- Arguments find no place. -/
  | unrecognized (arguments : List String)
  deriving DecidableEq, Repr

namespace UsageFault

/-- The fault in words. -/
def message : UsageFault → String
  | ambiguous argument forms =>
      "ambiguous option: " ++ argument ++ " could match " ++ String.intercalate ", " forms
  | valueExpected title => "argument " ++ title ++ ": expected one argument"
  | valueIgnored title value =>
      "argument " ++ title ++ ": ignored explicit argument " ++ Text.quoted value
  | invalidChoice title value choices =>
      "argument " ++ title ++ ": invalid choice: " ++ Text.quoted value ++ " (choose from " ++
        String.intercalate ", " (choices.map Text.quoted) ++ ")"
  | required name => "the following arguments are required: " ++ name
  | unrecognized arguments => "unrecognized arguments: " ++ String.intercalate " " arguments

end UsageFault

/-- Why reading a command line ends early. -/
inductive Stop
  /-- A help text is asked for. -/
  | help
  /-- Something is wrong. -/
  | fault (fault : UsageFault)
  deriving DecidableEq, Repr

/-- The description of a command line. -/
structure Grammar where
  /-- The name of the program or of the command. -/
  program : String
  /-- How to call it. -/
  usage : List String
  /-- What is said about it below the usage. -/
  details : List String
  /-- The switches. -/
  switches : List Switch
  /-- The operands. -/
  operand : Operand
  deriving DecidableEq, Repr

/-- What has been read of a command line. -/
structure Reading where
  /-- The switches with their values, in order. -/
  switches : List (String × Option String)
  /-- The operands. -/
  operand : Option (List String)
  /-- The arguments that found no place. -/
  extras : List String
  deriving DecidableEq, Repr

namespace Reading

/-- Nothing. -/
def empty : Reading := ⟨[], none, []⟩

/-- The last value of a switch. -/
def value? (reading : Reading) (name : String) : Option String :=
  (reading.switches.reverse.find? fun entry => entry.1 = name).bind Prod.snd

/-- Whether a switch is on. -/
def isOn (reading : Reading) (name : String) : Bool :=
  reading.switches.any fun entry => entry.1 = name

/-- Hand an argument back. -/
def handBack (reading : Reading) (argument : String) : Reading :=
  { reading with extras := reading.extras ++ [argument] }

end Reading

namespace Grammar

/-! ## Kinds of arguments -/

/-- A switch as an argument names it. -/
structure Mention where
  /-- The switch. -/
  switch : Switch
  /-- The form that the argument stands for. -/
  form : String
  /-- What stands in the same argument behind the form or behind an equals sign. -/
  joined : Option (List Char)
  deriving DecidableEq, Repr

/-- The kinds of arguments. -/
inductive Kind
  /-- An operand. -/
  | operand
  /-- Two lone dashes. -/
  | separator
  /-- A switch. -/
  | switch (mention : Mention)
  /-- A switch that is not known. -/
  | unknown
  deriving DecidableEq, Repr

/-- All forms of all switches. -/
def forms (grammar : Grammar) : List (String × Switch) :=
  grammar.switches.flatMap fun switch => switch.forms.map fun form => (form, switch)

/-- The switch with a form. -/
def switchOf? (grammar : Grammar) (form : String) : Option Switch :=
  (grammar.forms.find? fun entry => entry.1 = form).map Prod.snd

/-- What a text has in front of its first equals sign, and what it has behind it. -/
def splitEquals (cs : List Char) : List Char × Option (List Char) :=
  (cs.takeWhile fun c => c != '=', (cs.dropWhile fun c => c != '=').tail?)

/-- The switches that an argument may be meant to name. -/
def mentions (grammar : Grammar) (cs : List Char) : List Mention :=
  if cs[1]? = some '-' then
    let (stem, value) := splitEquals cs
    (grammar.forms.filter fun entry => stem.isPrefixOf entry.1.toList).map fun entry =>
      ⟨entry.2, entry.1, value⟩
  else
    grammar.forms.filterMap fun entry =>
      if entry.1.toList = cs.take 2 then some ⟨entry.2, entry.1, some (cs.drop 2)⟩
      else if cs.isPrefixOf entry.1.toList then some ⟨entry.2, entry.1, none⟩
      else none

/-- Whether a text behind a dash makes a negative number; one line feed at its end does not
matter. -/
def isNumber (cs : List Char) : Bool :=
  let cs := if cs.getLast? = some '\n' then cs.dropLast else cs
  let whole := cs.takeWhile Text.isDecimalDigit
  match cs.drop whole.length with
  | [] => !whole.isEmpty
  | '.' :: fraction => !fraction.isEmpty && fraction.all Text.isDecimalDigit
  | _ => false

/-- The kind of an argument in front of two lone dashes. -/
def kindOf (grammar : Grammar) (argument : String) : Except UsageFault Kind :=
  let cs := argument.toList
  if cs.head? ≠ some '-' then .ok .operand
  else
    match grammar.switchOf? argument with
    | some switch => .ok (.switch ⟨switch, argument, none⟩)
    | none =>
        if cs.length = 1 then .ok .operand
        else
          let (stem, value) := splitEquals cs
          match value, grammar.switchOf? (String.ofList stem) with
          | some value, some switch =>
              .ok (.switch ⟨switch, String.ofList stem, some value⟩)
          | _, _ =>
              match grammar.mentions cs with
              | [mention] => .ok (.switch mention)
              | [] =>
                  if isNumber (cs.drop 1) || cs.contains ' ' then .ok .operand else .ok .unknown
              | several => .error (.ambiguous argument (several.map Mention.form))

/-- The arguments of a command line with their kinds. -/
def kinds (grammar : Grammar) : List String → Except UsageFault (List (String × Kind))
  | [] => .ok []
  | argument :: rest =>
      if argument = "--" then
        .ok ((argument, .separator) :: rest.map fun argument => (argument, .operand))
      else do
        let kind ← grammar.kindOf argument
        let others ← kinds grammar rest
        return (argument, kind) :: others

/-! ## Values of switches -/

/-- Switches that an argument names, with the values in it, and a last one whose value is not in
it. -/
abbrev Named := List (Switch × Option String) × Option Switch

/-- A value in the same argument as its switch; two dashes stand for no value. -/
def joinedValue (cs : List Char) : Option String :=
  if cs = ['-', '-'] then none else some (String.ofList cs)

/-- Read what stands in the same argument as a switch: its value, or behind a short flag more short
switches. -/
def readJoined (grammar : Grammar) (switch : Switch) (form : String) :
    List Char → Except UsageFault Named
  | [] =>
      if switch.takesValue then .ok ([(switch, some "")], none)
      else .error (.valueIgnored switch.title "")
  | c :: rest =>
      if switch.takesValue then .ok ([(switch, joinedValue (c :: rest))], none)
      else
        let next := String.ofList ['-', c]
        let following? := if form.toList[1]? = some '-' then none else grammar.switchOf? next
        match following?, rest with
        | none, rest => .error (.valueIgnored switch.title (String.ofList (c :: rest)))
        | some following, [] => .ok ([(switch, none)], some following)
        | some following, d :: rest => do
            let (taken, last) ← readJoined grammar following next (d :: rest)
            return ((switch, none) :: taken, last)

/-- Note a switch and its value. -/
def note (reading : Reading) (switch : Switch) (value : Option String) : Except Stop Reading :=
  let noted := { reading with switches := reading.switches ++ [(switch.name, value)] }
  match switch.effect, value with
  | .help, _ => .error .help
  | .value choices, some value =>
      if choices.isEmpty || choices.contains value then .ok noted
      else .error (.fault (.invalidChoice switch.title value choices))
  | _, _ => .ok noted

/-- Note several switches in order. -/
def noteAll (reading : Reading) : List (Switch × Option String) → Except Stop Reading
  | [] => .ok reading
  | (switch, value) :: rest => do
      noteAll (← note reading switch value) rest

/-! ## Reading -/

/-- The switches that an argument names. -/
def readMention (grammar : Grammar) (mention : Mention) : Except UsageFault Named :=
  match mention.joined with
  | none => .ok ([], some mention.switch)
  | some value => readJoined grammar mention.switch mention.form value

/-- Read the arguments behind those that `reading` has noted. -/
def readFrom (grammar : Grammar) (reading : Reading) :
    List (String × Kind) → Except Stop Reading
  | [] => .ok reading
  | (argument, .unknown) :: rest => readFrom grammar (reading.handBack argument) rest
  | (_, .switch mention) :: rest =>
      match grammar.readMention mention with
      | .error fault => .error (.fault fault)
      | .ok (taken, none) => do
          readFrom grammar (← noteAll reading taken) rest
      | .ok (taken, some switch) =>
          if switch.takesValue then
            match rest with
            | (value, .operand) :: rest => do
                readFrom grammar (← noteAll reading (taken ++ [(switch, some value)])) rest
            | _ => .error (.fault (.valueExpected switch.title))
          else do
            readFrom grammar (← noteAll reading (taken ++ [(switch, none)])) rest
  | (argument, .operand) :: rest =>
      match reading.operand, grammar.operand, rest with
      | none, .command _, rest =>
          .ok { reading with operand := some (argument :: rest.map Prod.fst) }
      | none, .single _, (_, .separator) :: rest =>
          readFrom grammar { reading with operand := some [argument] } rest
      | none, .single _, rest =>
          readFrom grammar { reading with operand := some [argument] } rest
      | _, _, rest => readFrom grammar (reading.handBack argument) rest
  | (argument, .separator) :: rest =>
      match reading.operand, grammar.operand, rest with
      | none, .command _, (value, .operand) :: rest =>
          .ok { reading with operand := some (argument :: value :: rest.map Prod.fst) }
      | none, .single _, (value, .operand) :: rest =>
          readFrom grammar { reading with operand := some [value] } rest
      | _, _, rest => readFrom grammar (reading.handBack argument) rest

/-- Whether the operands that have been read are admissible. -/
def checkOperand (grammar : Grammar) (reading : Reading) : Except Stop Reading :=
  match grammar.operand, reading.operand with
  | .single name, none => .error (.fault (.required name))
  | .command choices, some (command :: _) =>
      if choices.contains command then .ok reading
      else .error (.fault (.invalidChoice "command" command choices))
  | _, _ => .ok reading

/-- Read a command line. -/
def read (grammar : Grammar) (arguments : List String) : Except Stop Reading :=
  match grammar.kinds arguments with
  | .error fault => .error (.fault fault)
  | .ok kinds => do
      grammar.checkOperand (← grammar.readFrom .empty kinds)

/-! ## Texts -/

/-- Lines with a line feed behind each. -/
def lines (texts : List String) : String := String.join (texts.map fun text => text ++ "\n")

/-- The help text. -/
def helpText (grammar : Grammar) : String := lines (grammar.usage ++ "" :: grammar.details)

/-- What is written about a fault. -/
def faultText (grammar : Grammar) (fault : UsageFault) : String :=
  lines (grammar.usage ++ [grammar.program ++ ": error: " ++ fault.message])

end Grammar
end DesignTokens
