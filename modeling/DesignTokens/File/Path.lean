import DesignTokens.Text.Split

/-!
# File paths

A file path is a row of names below the root or below the working directory.  Empty names and single
dots are left out when it is read; double dots stay.
-/

namespace DesignTokens

/-- Where a path begins. -/
inductive Anchor
  /-- At the working directory. -/
  | here
  /-- At the root. -/
  | root
  /-- At the root, written with two slashes. -/
  | doubleRoot
  deriving DecidableEq, Repr

namespace Anchor

/-- The slashes at the beginning of a path. -/
def text : Anchor → String
  | here => ""
  | root => "/"
  | doubleRoot => "//"

end Anchor

/-- A path to a file or a directory. -/
structure FilePath where
  /-- Where the path begins. -/
  anchor : Anchor
  /-- The names on the way. -/
  names : List String
  deriving DecidableEq, Repr

namespace FilePath

/-- Where a text begins as a path: at the root if there are slashes, which count as one unless there
are two. -/
def anchorOf : List Char → Anchor
  | '/' :: '/' :: '/' :: _ => .root
  | '/' :: '/' :: _ => .doubleRoot
  | '/' :: _ => .root
  | _ => .here

/-- The path that a text denotes. -/
def ofText (text : String) : FilePath where
  anchor := anchorOf text.toList
  names :=
    ((Text.split '/' text.toList).map String.ofList).filter fun name => name != "" && name != "."

/-- A path in writing. -/
def text (path : FilePath) : String :=
  if path.anchor = .here ∧ path.names.isEmpty then "."
  else path.anchor.text ++ String.intercalate "/" path.names

/-- The last name of a path. -/
def name (path : FilePath) : String := path.names.getLast?.getD ""

/-- The path without its last name. -/
def parent (path : FilePath) : FilePath := { path with names := path.names.dropLast }

/-- The second path, seen from the first. -/
def join (base path : FilePath) : FilePath :=
  if path.anchor = .here then { base with names := base.names ++ path.names } else path

/-- Drop each pair of a name and the double dots behind it; double dots at the root stay there. -/
def collapse (reversed : List String) : List String → List String
  | [] => reversed.reverse
  | ".." :: rest => collapse (reversed.drop 1) rest
  | name :: rest => collapse (name :: reversed) rest

/-- The path from the root that leads from the directory `base` along `path`, without double
dots. -/
def absolute (base path : FilePath) : FilePath :=
  ⟨.root, collapse [] (join base path).names⟩

end FilePath
end DesignTokens
