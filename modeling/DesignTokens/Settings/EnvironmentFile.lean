import DesignTokens.Fields
import DesignTokens.Text.Blank

/-!
# Environment files

An environment file assigns texts to names, one assignment a line.  A value stands bare, up to a
comment or the end of the line, or in single or double quotes, which may span lines.  Comments,
blank lines and the word `export` in front of a name are allowed.  A line that is no assignment is
passed over and can be asked for by its number.  A name without an equals sign is assigned nothing.
In values, a name in braces after a dollar sign stands for the value assigned to it.
-/

namespace DesignTokens
namespace EnvironmentFile

/-- Whether a character is blank and does not end a line. -/
def isInlineBlank (c : Char) : Bool := Text.isBlank c && c != '\n'

/-- A text without the blanks at its beginning, as far as the end of the line. -/
def skipBlanks (cs : List Char) : List Char := cs.dropWhile isInlineBlank

/-- The line that a text begins with. -/
def line (cs : List Char) : List Char := cs.takeWhile fun c => c != '\n'

/-- A text behind the line that it begins with, from the line feed on. -/
def behindLine (cs : List Char) : List Char := cs.dropWhile fun c => c != '\n'

/-- A text behind the line that it begins with and its line feed. -/
def skipLine (cs : List Char) : List Char := (behindLine cs).drop 1

/-- A text behind the word `export`, if it begins with it. -/
def skipExport (cs : List Char) : List Char :=
  if "export".toList.isPrefixOf cs then
    let rest := cs.drop 6
    if (rest.takeWhile isInlineBlank).isEmpty then cs else skipBlanks rest
  else cs

/-- A way to read from the beginning of a text, which leaves what follows; a fault is the place
where the text is not as it should be. -/
abbrev Reader := StateT (List Char) (Except (List Char))

/-- Read the end of a line, which blanks and a comment may stand in front of. -/
def lineEnd : Reader Unit := fun cs =>
  match skipBlanks cs with
  | [] => .ok ((), [])
  | '\n' :: rest => .ok ((), rest)
  | '#' :: rest => .ok ((), skipLine rest)
  | _ => .error cs

/-! ## Names and values -/

/-- Read a name, bare or in single quotes. -/
def name : Reader String := fun cs =>
  match cs with
  | '\'' :: rest =>
      let name := rest.takeWhile fun c => c != '\''
      match rest.drop name.length with
      | _ :: rest => if name.isEmpty then .error cs else .ok (String.ofList name, rest)
      | [] => .error cs
  | _ =>
      let name := cs.takeWhile fun c => c != '=' && c != '#' && !Text.isBlank c
      if name.isEmpty then .error cs else .ok (String.ofList name, cs.drop name.length)

/-- The text up to the closing quote, and what follows.  A character behind a backslash does not
close. -/
def closing? (quote : Char) : List Char → Option (List Char × List Char)
  | [] => none
  | '\\' :: c :: rest =>
      (closing? quote rest).map fun (value, after) => ('\\' :: c :: value, after)
  | c :: rest =>
      if c = quote then some ([], rest)
      else (closing? quote rest).map fun (value, after) => (c :: value, after)

/-- The character that a backslash and another character stand for between double quotes. -/
def escaped? : Char → Option Char
  | '\\' => some '\\'
  | '\'' => some '\''
  | '"' => some '"'
  | 'a' => some '\x07'
  | 'b' => some '\x08'
  | 'f' => some '\x0c'
  | 'n' => some '\n'
  | 'r' => some '\r'
  | 't' => some '\t'
  | 'v' => some '\x0b'
  | _ => none

/-- The character that a backslash and another character stand for between single quotes. -/
def escapedPlain? (c : Char) : Option Char := if c = '\\' ∨ c = '\'' then some c else none

/-- Replace the escapes of a text. -/
def unescape (escaped? : Char → Option Char) : List Char → List Char
  | [] => []
  | '\\' :: c :: rest =>
      match escaped? c with
      | some plain => plain :: unescape escaped? rest
      | none => '\\' :: unescape escaped? (c :: rest)
  | c :: rest => c :: unescape escaped? rest

/-- A bare value up to a comment that stands behind a blank. -/
def beforeComment : List Char → List Char
  | [] => []
  | c :: rest =>
      if Text.isBlank c && (rest.dropWhile Text.isBlank).head? = some '#' then []
      else c :: beforeComment rest

/-- A bare value on the rest of a line. -/
def bare (cs : List Char) : List Char := Text.trim Text.isBlank (beforeComment cs)

/-- Read a value up to its closing quote, and replace its escapes. -/
def quoted (quote : Char) (escaped? : Char → Option Char) : Reader (List Char) := fun cs =>
  match closing? quote cs with
  | some (value, rest) => .ok (unescape escaped? value, rest)
  | none => .error cs

/-- Read a value. -/
def value : Reader (List Char) := fun cs =>
  match skipBlanks cs with
  | '\'' :: rest => quoted '\'' escapedPlain? rest
  | '"' :: rest => quoted '"' escaped? rest
  | _ => .ok (bare (line cs), behindLine cs)

/-- Read an equals sign and a value, if there is an equals sign. -/
def valueIfAny : Reader (Option (List Char)) := fun cs =>
  match skipBlanks cs with
  | '=' :: rest => (some <$> value).run rest
  | rest => .ok (none, rest)

/-! ## Statements -/

/-- A name and what it is assigned. -/
structure Assignment where
  /-- The name. -/
  name : String
  /-- The value, if there is an equals sign. -/
  value : Option (List Char)
  deriving DecidableEq, Repr

/-- What a file is made of. -/
inductive Statement
  /-- An assignment. -/
  | assignment (assignment : Assignment)
  /-- A comment, or nothing. -/
  | remark
  /-- A line that is neither. -/
  | unreadable
  deriving DecidableEq, Repr

/-- Read an assignment and the end of its line. -/
def assignment : Reader Assignment := do
  let name ← name
  let value ← valueIfAny
  lineEnd
  return { name, value }

/-- The statement that a text begins with, behind the blanks in front of it, and what follows. -/
def statement (cs : List Char) : Statement × List Char :=
  match cs.dropWhile Text.isBlank with
  | [] => (.remark, [])
  | cs =>
      match skipExport cs with
      | '#' :: rest => (.remark, skipLine rest)
      | cs =>
          match assignment cs with
          | .ok (assignment, rest) => (.assignment assignment, rest)
          | .error place => (.unreadable, skipLine place)

/-- The statements of a text that begins on the line with a number, each with the number of the line
that it begins on.  Reading ends where a statement takes nothing, which is at the end of the
text. -/
def statementsFrom (number : Nat) (cs : List Char) : List (Nat × Statement) :=
  let read := statement cs
  (number, read.1) ::
    if read.2.length < cs.length then
      statementsFrom (number + (cs.count '\n' - read.2.count '\n')) read.2
    else []
termination_by cs.length

/-- The statements of a text in order.  A byte order mark in front of them does not count. -/
def statements (text : String) : List (Nat × Statement) :=
  match text.toList with
  | '\uFEFF' :: cs => statementsFrom 1 cs
  | cs => statementsFrom 1 cs

/-- The assignments of a text in order. -/
def assignments (text : String) : List Assignment :=
  (statements text).filterMap fun (_, statement) =>
    match statement with
    | .assignment assignment => some assignment
    | _ => none

/-- The numbers of the lines, counted from one, on which statements begin that cannot be read. -/
def unreadableLines (text : String) : List Nat :=
  (statements text).filterMap fun (number, statement) =>
    if statement = .unreadable then some number else none

/-! ## References -/

/-- A name in braces and the text that stands in for it if it has no value, and what follows. -/
def reference? (cs : List Char) : Option (String × String × List Char) :=
  let name := cs.takeWhile fun c => c != '\x7d' && c != ':'
  match cs.drop name.length with
  | '\x7d' :: rest => some (String.ofList name, "", rest)
  | ':' :: '-' :: rest =>
      let default := rest.takeWhile fun c => c != '\x7d'
      match rest.drop default.length with
      | '\x7d' :: rest => some (String.ofList name, String.ofList default, rest)
      | _ => none
  | _ => none

/-- Replace the references of a text; `skip` characters belong to the reference before. -/
def interpolate (lookup : String → Option String) (skip : Nat) : List Char → List Char
  | [] => []
  | c :: rest =>
      match skip with
      | skip + 1 => interpolate lookup skip rest
      | 0 =>
          match c, rest with
          | '$', '{' :: inner =>
              match reference? inner with
              | some (name, default, after) =>
                  ((lookup name).getD default).toList ++
                    interpolate lookup (rest.length - after.length) rest
              | none => c :: interpolate lookup 0 rest
          | _, _ => c :: interpolate lookup 0 rest

/-- The values of the assignments in order, where a reference means the latest assignment above it,
or else the surrounding environment. -/
def resolve (environment : Fields String) (known : Fields (Option String)) :
    List Assignment → Fields (Option String)
  | [] => known
  | ⟨name, value⟩ :: rest =>
      let lookup := fun (key : String) =>
        match Fields.get? known key with
        | some value => some (value.getD "")
        | none => Fields.get? environment key
      let value := value.map fun value => String.ofList (interpolate lookup 0 value)
      resolve environment (Fields.put known name value) rest

/-- The names that a text assigns, with their values; of repeated names the last one counts. -/
def read (environment : Fields String) (text : String) : Fields (Option String) :=
  resolve environment [] (assignments text)

end EnvironmentFile
end DesignTokens
