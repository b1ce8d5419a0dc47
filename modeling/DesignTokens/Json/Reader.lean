import DesignTokens.Json.Lexeme
import DesignTokens.Text.Position

/-!
# Reading documents

A document is read lexeme by lexeme by a machine with a stack of the lists and objects that are
still open.  The first lexeme that does not fit decides the fault.  A name that an object repeats
keeps its first place and takes its last value.
-/

namespace DesignTokens
namespace Json

/-- A list or an object that is still open. -/
inductive Frame
  /-- A list with the items read so far, in reverse. -/
  | list (reversed : List Json)
  /-- An object with the entries read so far, and the name whose value comes next. -/
  | object (entries : Fields Json) (name : String)

/-- What may come next. -/
inductive Expectation
  /-- A value. -/
  | value
  /-- A value or the end of the list just opened. -/
  | firstItem
  /-- A name for the object with these entries. -/
  | name (entries : Fields Json)
  /-- A name or the end of the object just opened. -/
  | firstName
  /-- The colon behind a name. -/
  | colon (entries : Fields Json) (name : String)
  /-- What follows this value in the innermost open list or object, or the end. -/
  | after (value : Json)

/-- Why a text is no document. -/
inductive Fault
  /-- Something does not fit at a place. -/
  | malformed (misfit : Misfit) (position : Text.Position)
  /-- A whole number has too many digits. -/
  | longInteger (digits : Nat)
  deriving DecidableEq, Repr

namespace Fault

/-- The fault in words. -/
def describe : Fault → String
  | .malformed misfit position => misfit.describe ++ ": " ++ position.describe
  | .longInteger digits =>
      "Exceeds the limit (" ++ toString Lexeme.integerLimit ++
        " digits) for integer string conversion: value has " ++ toString digits ++
        " digits; use sys.set_int_max_str_digits() to increase the limit"

end Fault

namespace Expectation

/-- The misfit of a lexeme that is not what was expected, at its offset. -/
def misfit (expectation : Expectation) (stack : List Frame) : Misfit :=
  match expectation, stack with
  | value, _ => .value
  | firstItem, _ => .value
  | name _, _ => .name
  | firstName, _ => .name
  | colon _ _, _ => .colon
  | after _, [] => .extra
  | after _, _ :: _ => .comma

end Expectation

/-- Where the machine goes with one lexeme: on to an expectation, or out with a value or a fault. -/
inductive Turn
  /-- The lexeme fits. -/
  | next (expectation : Expectation) (stack : List Frame)
  /-- The document is complete. -/
  | done (value : Json)
  /-- The lexeme does not fit. -/
  | refuse (misfit : Misfit) (offset : Nat)
  /-- The lexeme is a whole number that is not read. -/
  | longInteger (digits : Nat)

/-- The turn of a lexeme that begins a value. -/
def beginValue (stack : List Frame) (offset : Nat) : Lexeme → Turn
  | .openObject => .next .firstName stack
  | .openList => .next .firstItem (.list [] :: stack)
  | .text value => .next (.after (.str value)) stack
  | .atom value => .next (.after value) stack
  | .brokenText misfit place => .refuse misfit place
  | .longInteger digits => .longInteger digits
  | _ => .refuse .value offset

/-- The turn of a lexeme that begins a member. -/
def beginMember (entries : Fields Json) (stack : List Frame) (offset : Nat) : Lexeme → Turn
  | .text name => .next (.colon entries name) stack
  | .brokenText misfit place => .refuse misfit place
  | _ => .refuse .name offset

/-- The turn of a lexeme. -/
def turn (expectation : Expectation) (stack : List Frame) (offset : Nat) (lexeme : Lexeme) : Turn :=
  match expectation, stack, lexeme with
  | .value, stack, lexeme => beginValue stack offset lexeme
  | .firstItem, .list _ :: stack, .closeList => .next (.after (.list [])) stack
  | .firstItem, stack, lexeme => beginValue stack offset lexeme
  | .name entries, stack, lexeme => beginMember entries stack offset lexeme
  | .firstName, stack, .closeObject => .next (.after (.object [])) stack
  | .firstName, stack, lexeme => beginMember [] stack offset lexeme
  | .colon entries name, stack, .colon => .next .value (.object entries name :: stack)
  | .after value, [], .finish => .done value
  | .after value, .list reversed :: stack, .comma =>
      .next .value (.list (value :: reversed) :: stack)
  | .after value, .list reversed :: stack, .closeList =>
      .next (.after (.list (value :: reversed).reverse)) stack
  | .after value, .object entries name :: stack, .comma =>
      .next (.name (entries.put name value)) stack
  | .after value, .object entries name :: stack, .closeObject =>
      .next (.after (.object (entries.put name value))) stack
  | expectation, stack, _ => .refuse (expectation.misfit stack) offset

/-- Run the machine over a row of lexemes of a text. -/
def run (text : List Char) (expectation : Expectation) (stack : List Frame) :
    List (Nat × Lexeme) → Except Fault Json
  | [] => .error (.malformed (expectation.misfit stack) (.ofOffset text text.length))
  | (offset, lexeme) :: rest =>
      match turn expectation stack offset lexeme with
      | .next expectation stack => run text expectation stack rest
      | .done value => .ok value
      | .refuse misfit offset => .error (.malformed misfit (.ofOffset text offset))
      | .longInteger digits => .error (.longInteger digits)

/-- The document value that a text denotes. -/
def read (text : String) : Except Fault Json :=
  let cs := text.toList
  match cs with
  | '\uFEFF' :: _ => .error (.malformed .byteOrderMark (.ofOffset cs 0))
  | _ => run cs .value [] (Lexeme.row 0 0 cs)

end Json
end DesignTokens
