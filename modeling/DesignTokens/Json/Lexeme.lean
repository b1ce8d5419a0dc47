import DesignTokens.Json.Basic

/-!
# Lexemes of a document

The text of a document is a row of lexemes with blanks between them.  Each character either begins a
lexeme, lies inside the lexeme begun before it, or is blank, so the row is read by recursion on the
characters.  The row ends at the end of the text or at the first place where no lexeme is complete.
-/

namespace DesignTokens
namespace Json

/-- What is wrong with the text of a document at some place. -/
inductive Misfit
  /-- No value begins here. -/
  | value
  /-- No member name begins here. -/
  | name
  /-- A member name lacks its colon. -/
  | colon
  /-- A list or object is neither continued nor closed. -/
  | comma
  /-- The document continues after its value. -/
  | extra
  /-- A text has no closing quote. -/
  | unterminated
  /-- A text contains a control character. -/
  | control
  /-- A backslash is followed by no escape. -/
  | escape
  /-- An escape by code unit lacks its four digits. -/
  | codeUnit
  /-- The document begins with a byte order mark. -/
  | byteOrderMark
  deriving DecidableEq, Repr

namespace Misfit

/-- The misfit in words. -/
def describe : Misfit → String
  | value => "Expecting value"
  | name => "Expecting property name enclosed in double quotes"
  | colon => "Expecting ':' delimiter"
  | comma => "Expecting ',' delimiter"
  | extra => "Extra data"
  | unterminated => "Unterminated string starting at"
  | control => "Invalid control character at"
  | escape => "Invalid \\escape"
  | codeUnit => "Invalid \\uXXXX escape"
  | byteOrderMark => "Unexpected UTF-8 BOM (decode using utf-8-sig)"

end Misfit

/-- The parts that documents are written with. -/
inductive Lexeme
  /-- An opening brace. -/
  | openObject
  /-- A closing brace. -/
  | closeObject
  /-- An opening bracket. -/
  | openList
  /-- A closing bracket. -/
  | closeList
  /-- A comma. -/
  | comma
  /-- A colon. -/
  | colon
  /-- A text in quotes. -/
  | text (value : String)
  /-- A number or a named value. -/
  | atom (value : Json)
  /-- A text that is not completed, with the place of what is wrong. -/
  | brokenText (misfit : Misfit) (offset : Nat)
  /-- A whole number with more digits than are read. -/
  | longInteger (digits : Nat)
  /-- A character that begins no lexeme. -/
  | other
  /-- The end of the text. -/
  | finish

namespace Lexeme

/-- The value of a hexadecimal digit. -/
def hexValue? (c : Char) : Option Nat :=
  if '0' ≤ c ∧ c ≤ '9' then some (c.toNat - '0'.toNat)
  else if 'a' ≤ c ∧ c ≤ 'f' then some (c.toNat - 'a'.toNat + 10)
  else if 'A' ≤ c ∧ c ≤ 'F' then some (c.toNat - 'A'.toNat + 10)
  else none

/-- The code unit written by four hexadecimal digits. -/
def codeUnit? (a b c d : Char) : Option Nat := do
  return (((← hexValue? a) * 16 + (← hexValue? b)) * 16 + (← hexValue? c)) * 16 + (← hexValue? d)

/-- The character of a two-character escape. -/
def escaped? : Char → Option Char
  | '"' => some '"'
  | '\\' => some '\\'
  | '/' => some '/'
  | 'b' => some '\x08'
  | 'f' => some '\x0c'
  | 'n' => some '\n'
  | 'r' => some '\r'
  | 't' => some '\t'
  | _ => none

/-- Whether a code unit is the first half of a pair. -/
def isHighHalf (unit : Nat) : Bool := 0xD800 ≤ unit && unit < 0xDC00

/-- Whether a code unit is the second half of a pair. -/
def isLowHalf (unit : Nat) : Bool := 0xDC00 ≤ unit && unit < 0xE000

/-- The characters of a row of code points.  A first half followed by a second half is one
character; a half on its own, which no text here can hold, becomes the replacement character. -/
def joinHalves : List Nat → List Char
  | [] => []
  | high :: low :: rest =>
      if isHighHalf high && isLowHalf low then
        Char.ofNat (0x10000 + (high - 0xD800) * 0x400 + (low - 0xDC00)) :: joinHalves rest
      else if isHighHalf high || isLowHalf high then '\uFFFD' :: joinHalves (low :: rest)
      else Char.ofNat high :: joinHalves (low :: rest)
  | [unit] => if isHighHalf unit || isLowHalf unit then ['\uFFFD'] else [Char.ofNat unit]

/-- The rest of a text up to its closing quote: its code points, after those already read in
reverse, and the offset behind the quote.  An escape by code unit needs a character behind it, and a
text without end is reported at its opening quote. -/
def scanText (opening : Nat) (reversed : List Nat) (offset : Nat) :
    List Char → Except (Misfit × Nat) (List Nat × Nat)
  | [] => .error (.unterminated, opening)
  | '"' :: _ => .ok (reversed.reverse, offset + 1)
  | ['\\'] => .error (.unterminated, opening)
  | '\\' :: 'u' :: a :: b :: c :: d :: rest =>
      match codeUnit? a b c d, rest.isEmpty with
      | some unit, false => scanText opening (unit :: reversed) (offset + 6) rest
      | _, _ => .error (.codeUnit, offset + 1)
  | '\\' :: 'u' :: _ => .error (.codeUnit, offset + 1)
  | '\\' :: c :: rest =>
      match escaped? c with
      | some c => scanText opening (c.toNat :: reversed) (offset + 2) rest
      | none => .error (.escape, offset)
  | c :: rest =>
      if c.toNat ≤ 0x1F then .error (.control, offset)
      else scanText opening (c.toNat :: reversed) (offset + 1) rest

/-- The lexeme that an opening quote at `offset` begins, and the number of its characters. -/
def ofText (offset : Nat) (rest : List Char) : Lexeme × Nat :=
  match scanText offset [] (offset + 1) rest with
  | .ok (units, stop) => (.text (String.ofList (joinHalves units)), stop - offset)
  | .error (misfit, place) => (.brokenText misfit place, 1)

/-- Whether a character is one of the ten decimal digits of numbers. -/
def isDecimal (c : Char) : Bool := '0' ≤ c && c ≤ '9'

/-- The digits of a whole part: a single zero, or digits of which the first is not zero. -/
def wholePart : List Char → List Char
  | '0' :: _ => ['0']
  | cs => cs.takeWhile isDecimal

/-- The digits of a fraction, after a point. -/
def fractionPart : List Char → List Char
  | '.' :: rest => rest.takeWhile isDecimal
  | _ => []

/-- An exponent: its sign, its digits, and the number of its characters. -/
structure Exponent where
  /-- Whether the sign is a minus. -/
  negative : Bool
  /-- The digits. -/
  digits : List Char
  /-- The length with letter and sign. -/
  width : Nat

/-- The exponent that a text begins with, if any. -/
def exponentPart (cs : List Char) : Option Exponent :=
  match cs with
  | mark :: rest =>
      if mark = 'e' ∨ mark = 'E' then
        let exponent : Exponent :=
          match rest with
          | '-' :: rest =>
              let digits := rest.takeWhile isDecimal
              ⟨true, digits, digits.length + 2⟩
          | '+' :: rest =>
              let digits := rest.takeWhile isDecimal
              ⟨false, digits, digits.length + 2⟩
          | rest =>
              let digits := rest.takeWhile isDecimal
              ⟨false, digits, digits.length + 1⟩
        if exponent.digits.isEmpty then none else some exponent
      else none
  | [] => none

/-- The most digits of a whole number. -/
def integerLimit : Nat := 4300

/-- The number that a text begins with after an optional sign, and the number of its characters.
There is none if a digit does not follow. -/
def ofNumber? (negative : Bool) (cs : List Char) : Option (Lexeme × Nat) :=
  let whole := wholePart cs
  if whole.isEmpty then none
  else
    let afterWhole := cs.drop whole.length
    let fraction := fractionPart afterWhole
    let pointed := if fraction.isEmpty then 0 else fraction.length + 1
    match exponentPart (afterWhole.drop pointed) with
    | some exponent =>
        let shift : Int := natOfDigits exponent.digits
        some
          (.atom (.scalar (.real (.ofScaled negative (natOfDigits (whole ++ fraction))
            ((if exponent.negative then -shift else shift) - fraction.length)))),
          whole.length + pointed + exponent.width)
    | none =>
        if fraction.isEmpty then
          if integerLimit < whole.length then some (.longInteger whole.length, whole.length)
          else
            let magnitude : Int := natOfDigits whole
            some (.atom (.int (if negative then -magnitude else magnitude)), whole.length)
        else
          some
            (.atom (.scalar (.real (.ofScaled negative (natOfDigits (whole ++ fraction))
              (-fraction.length)))),
            whole.length + pointed)

/-- The values that are written by name. -/
def names : List (String × Json) :=
  [("null", .null), ("true", .bool true), ("false", .bool false), ("NaN", .scalar (.real .nan)),
   ("Infinity", .scalar (.real (.infinite false))),
   ("-Infinity", .scalar (.real (.infinite true)))]

/-- The named value that a text begins with, and the number of its characters. -/
def ofName? (cs : List Char) : Option (Lexeme × Nat) :=
  (names.find? fun entry => entry.1.toList.isPrefixOf cs).map fun entry =>
    (.atom entry.2, entry.1.length)

/-- The lexeme that begins with `c` and continues with `rest`, and the number of its characters. -/
def first (offset : Nat) (c : Char) (rest : List Char) : Lexeme × Nat :=
  match c with
  | '{' => (.openObject, 1)
  | '}' => (.closeObject, 1)
  | '[' => (.openList, 1)
  | ']' => (.closeList, 1)
  | ',' => (.comma, 1)
  | ':' => (.colon, 1)
  | '"' => ofText offset rest
  | '-' =>
      match ofNumber? true rest with
      | some (lexeme, width) => (lexeme, width + 1)
      | none => (ofName? (c :: rest)).getD (.other, 1)
  | c => ((ofNumber? false (c :: rest)).orElse fun _ => ofName? (c :: rest)).getD (.other, 1)

/-- Whether a row of lexemes can go on behind this one. -/
def isComplete : Lexeme → Bool
  | brokenText _ _ => false
  | longInteger _ => false
  | other => false
  | _ => true

/-- Whether a character may stand between lexemes. -/
def isSpace (c : Char) : Bool := c = ' ' || c = '\t' || c = '\n' || c = '\r'

/-- The lexemes of a text with their offsets; the first `inside` characters belong to the lexeme
before. -/
def row (inside offset : Nat) : List Char → List (Nat × Lexeme)
  | [] => [(offset, .finish)]
  | c :: rest =>
      match inside with
      | inside + 1 => row inside (offset + 1) rest
      | 0 =>
          if isSpace c then row 0 (offset + 1) rest
          else
            let (lexeme, width) := first offset c rest
            (offset, lexeme) ::
              (if lexeme.isComplete then row (width - 1) (offset + 1) rest else [])

end Lexeme
end Json
end DesignTokens
