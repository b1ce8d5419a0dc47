import DesignTokens.Failure
import DesignTokens.Text.Newline

/-!
# Token documents

A token document is a JSON object whose entries are sections.  It is read from text, or from the
bytes of a UTF-8 file with any line ends.
-/

namespace DesignTokens

/-- The sections of a token document by their names. -/
abbrev Document := Fields Json

namespace Document

/-- The document that a text from `source` denotes. -/
def ofText (source text : String) : Except Fault Document :=
  match Json.read text with
  | .ok (.object entries) => .ok entries
  | .ok other =>
      .error (.failure (.invalidTokenJson source
        ("expected an object at the top level, got " ++ other.kind)))
  | .error (.longInteger digits) => .error (.longInteger (.longInteger digits))
  | .error fault => .error (.failure (.invalidTokenJson source fault.describe))

/-- The text of a file with the given bytes. -/
def textOfBytes (bytes : List UInt8) : Except Fault String :=
  match Text.Utf8.decode bytes with
  | .ok cs => .ok (String.ofList (Text.unifyNewlines cs))
  | .error fault => .error (.undecodable fault)

/-- The document in a file with the given bytes. -/
def ofBytes (source : String) (bytes : List UInt8) : Except Fault Document :=
  (textOfBytes bytes).bind (ofText source)

end Document
end DesignTokens
