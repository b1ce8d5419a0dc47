import DesignTokens.Json.Describe
import DesignTokens.Json.Reader
import DesignTokens.Text.Quoted
import DesignTokens.Text.Utf8
import DesignTokens.Token.Path

/-!
# Failures

A failure is something the pipeline foresees: a missing document, a document that is not JSON, a
structural defect, an output that exists.  Failures form families, and each kind of failure has a
code for machines and a message for people.  Every other fault leaves the pipeline as it is.
-/

namespace DesignTokens

/-- The kinds of failures and their families. -/
inductive FailureKind
  /-- The family of all failures. -/
  | general
  /-- The family of failures to read a document. -/
  | tokenFile
  /-- The document does not exist. -/
  | tokenFileNotFound
  /-- The document is not JSON, or not an object. -/
  | invalidTokenJson
  /-- The family of failed validations. -/
  | tokenValidation
  /-- The document has a structural defect. -/
  | invalidTokenStructure
  /-- The family of failures to write the output. -/
  | output
  /-- The output exists and is not to be overwritten. -/
  | outputExists
  deriving DecidableEq, Repr

namespace FailureKind

/-- A kind and the families it belongs to, from the narrowest to the widest. -/
def lineage : FailureKind → List FailureKind
  | general => [general]
  | tokenFile => [tokenFile, general]
  | tokenFileNotFound => [tokenFileNotFound, tokenFile, general]
  | invalidTokenJson => [invalidTokenJson, tokenFile, general]
  | tokenValidation => [tokenValidation, general]
  | invalidTokenStructure => [invalidTokenStructure, tokenValidation, general]
  | output => [output, general]
  | outputExists => [outputExists, output, general]

/-- The code of a kind. -/
def code : FailureKind → String
  | general => "TOKENPRESS_ERROR"
  | tokenFile => "TOKEN_FILE_ERROR"
  | tokenFileNotFound => "TOKEN_FILE_NOT_FOUND"
  | invalidTokenJson => "INVALID_TOKEN_JSON"
  | tokenValidation => "TOKEN_VALIDATION_ERROR"
  | invalidTokenStructure => "INVALID_TOKEN_STRUCTURE"
  | output => "OUTPUT_ERROR"
  | outputExists => "OUTPUT_EXISTS"

end FailureKind

/-- Something that the pipeline foresees. -/
inductive Failure
  /-- There is no document at the path. -/
  | tokenFileNotFound (path : String)
  /-- The text from the source is no token document. -/
  | invalidTokenJson (source detail : String)
  /-- The document has a structural defect. -/
  | invalidTokenStructure (path : TokenPath) (reason : String)
  /-- There is something at the output path. -/
  | outputExists (path : String)
  /-- A failure of a family, with a message, a code if the family's own does not do, and details. -/
  | other (family : FailureKind) (text : String) (code : String) (details : Fields Json)

namespace Failure

/-- The kind of a failure. -/
def kind : Failure → FailureKind
  | tokenFileNotFound _ => .tokenFileNotFound
  | invalidTokenJson _ _ => .invalidTokenJson
  | invalidTokenStructure _ _ => .invalidTokenStructure
  | outputExists _ => .outputExists
  | other family _ _ _ => family

/-- The message of a failure. -/
def message : Failure → String
  | tokenFileNotFound path => "Tokens file not found at: " ++ path
  | invalidTokenJson _ detail => "Invalid JSON in tokens file: " ++ detail
  | invalidTokenStructure path reason =>
      "Invalid token structure at " ++ TokenPath.location path ++ ": " ++ reason
  | outputExists path => "Output file " ++ path ++ " already exists. Use --force to overwrite."
  | other _ text _ _ => text

/-- The code of a failure. -/
def code : Failure → String
  | other family _ code _ => if code.isEmpty then family.code else code
  | failure => failure.kind.code

/-- The details of a failure. -/
def details : Failure → Fields Json
  | tokenFileNotFound path => [("path", .str path)]
  | invalidTokenJson source detail => [("path", .str source), ("detail", .str detail)]
  | invalidTokenStructure path reason =>
      [("path", .str (TokenPath.location path)), ("reason", .str reason)]
  | outputExists path => [("path", .str path)]
  | other _ _ _ details => details

/-- The path of the defect that a failure is about, if any. -/
def path : Failure → TokenPath
  | invalidTokenStructure path _ => path
  | _ => []

/-- The reason of the defect that a failure is about, if any. -/
def reason : Failure → Option String
  | invalidTokenStructure _ reason => some reason
  | _ => none

/-- The code, message and details of a failure, for machines. -/
def report (failure : Failure) : Fields Json :=
  [("error", .str failure.code), ("message", .str failure.message),
   ("context", .object failure.details)]

end Failure

/-- Why settings are refused. -/
inductive SettingsFault
  /-- The value of a field from a source is not JSON. -/
  | undecodable (field source : String)
  /-- Fields have values of the wrong kind; each is given with the rule it breaks. -/
  | invalid (fields : List (String × String))
  deriving DecidableEq, Repr

/-- Everything that ends a run before its result, but for texts that cannot be encoded and recursion
that is too deep. -/
inductive Fault
  /-- A failure. -/
  | failure (failure : Failure)
  /-- The type of a token is a list or an object, which cannot be looked up among the types. -/
  | compositeType (kind : String)
  /-- A document has a whole number with too many digits. -/
  | longInteger (fault : Json.Fault)
  /-- A document is not UTF-8. -/
  | undecodable (fault : Text.Utf8Fault)
  /-- A directory is where a file is to be written. -/
  | directoryInPlace (path : String)
  /-- A file is where a directory is needed. -/
  | fileInPlace (path : String)
  /-- A path leads through a file. -/
  | fileOnTheWay (path : String)
  /-- A path leads through a directory that does not exist. -/
  | nowhere (path : String)
  /-- A path contains the character U+0000. -/
  | nulInPath
  /-- A path, or a name on its way, is longer than the system allows. -/
  | longPath (path : String)
  /-- The settings are refused. -/
  | settings (fault : SettingsFault)

namespace Fault

/-- A number of the operating system, its words, and the path it is about. -/
def system (number : Nat) (words path : String) : String :=
  "[Errno " ++ toString number ++ "] " ++ words ++ ": " ++ Text.quoted path

/-- Where the bytes of a defect are. -/
def describeBytes (fault : Text.Utf8Fault) : String :=
  if fault.width = 1 then
    "byte 0x" ++ String.ofList (Text.hexDigits 2 fault.byte.toNat) ++ " in position " ++
      toString fault.offset
  else
    "bytes in position " ++ toString fault.offset ++ "-" ++
      toString (fault.offset + fault.width - 1)

/-- The message of a fault. -/
def message : Fault → String
  | failure cause => cause.message
  | compositeType kind => "unhashable type: " ++ Text.quoted kind
  | longInteger fault => fault.describe
  | undecodable fault =>
      "'utf-8' codec can't decode " ++ describeBytes fault ++ ": " ++ fault.reason
  | directoryInPlace path => system 21 "Is a directory" path
  | fileInPlace path => system 17 "File exists" path
  | fileOnTheWay path => system 20 "Not a directory" path
  | nowhere path => system 2 "No such file or directory" path
  | nulInPath => "embedded null byte"
  | longPath path => system 36 "File name too long" path
  | settings (.undecodable field source) =>
      "error parsing value for field \"" ++ field ++ "\" from source \"" ++ source ++ "\""
  | settings (.invalid fields) =>
      "invalid settings: " ++
        String.intercalate ", " (fields.map fun field => field.1 ++ " (" ++ field.2 ++ ")")

end Fault
end DesignTokens
