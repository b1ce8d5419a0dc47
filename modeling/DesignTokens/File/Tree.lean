import DesignTokens.Failure
import DesignTokens.File.Path

/-!
# File trees

A file tree says for each location below the root whether it holds a file or a directory.  A path is
followed name by name: every name but the last must lead to a directory, and double dots lead back.
Names have at most 255 bytes and paths fewer than 4096.  Making a directory also makes those that it
lies in; writing a file needs its directory.
-/

namespace DesignTokens

/-- Where something is: the names that lead to it from the root. -/
abbrev Location := List String

/-- What is at a location. -/
inductive FileEntry
  /-- A file with its bytes. -/
  | file (bytes : List UInt8)
  /-- A directory. -/
  | directory
  deriving DecidableEq, Repr

/-- Files and directories by location. -/
structure FileTree where
  /-- The entries in the order in which they were made. -/
  entries : List (Location × FileEntry)
  deriving DecidableEq, Repr

namespace FileTree

/-- The tree that holds nothing but the root. -/
def empty : FileTree := ⟨[]⟩

instance : Inhabited FileTree := ⟨empty⟩

/-- Look a location up in a list of entries. -/
def find? : List (Location × FileEntry) → Location → Option FileEntry
  | [], _ => none
  | (name, entry) :: rest, location => if name = location then some entry else find? rest location

/-- What is at a location; the root is a directory. -/
def entry? (tree : FileTree) (location : Location) : Option FileEntry :=
  if location.isEmpty then some .directory else find? tree.entries location

/-- Put an entry at a location of a list of entries. -/
def assign : List (Location × FileEntry) → Location → FileEntry → List (Location × FileEntry)
  | [], location, entry => [(location, entry)]
  | (name, old) :: rest, location, entry =>
      if name = location then (name, entry) :: rest else (name, old) :: assign rest location entry

/-- Put an entry at a location. -/
def set (tree : FileTree) (location : Location) (entry : FileEntry) : FileTree :=
  ⟨assign tree.entries location entry⟩

/-! ## Following paths -/

/-- Why a path leads nowhere. -/
inductive Obstacle
  /-- A name on the way leads to nothing. -/
  | missing
  /-- A name on the way leads to a file. -/
  | file
  /-- A name contains the character U+0000. -/
  | nul
  /-- A name, or the whole path, is too long. -/
  | long
  deriving DecidableEq, Repr

/-- The location that names lead to from a location.  There need not be anything at it. -/
def walk (tree : FileTree) (location : Location) : List String → Except Obstacle Location
  | [] => .ok location
  | name :: rest =>
      match tree.entry? location with
      | none => .error .missing
      | some (.file _) => .error .file
      | some .directory =>
          if name.utf8ByteSize > 255 then .error .long
          else walk tree (if name = ".." then location.dropLast else location ++ [name]) rest

/-- The location that a path leads to from a directory. -/
def locate (tree : FileTree) (here : Location) (path : FilePath) : Except Obstacle Location :=
  if path.names.any fun name => name.contains '\x00' then .error .nul
  else if path.text.utf8ByteSize ≥ 4096 then .error .long
  else walk tree (if path.anchor = .here then here else []) path.names

/-- What a path leads to, if anything. -/
def at? (tree : FileTree) (here : Location) (path : FilePath) : Option FileEntry :=
  match tree.locate here path with
  | .ok location => tree.entry? location
  | .error _ => none

/-- Whether a path leads to something. -/
def hasEntry (tree : FileTree) (here : Location) (path : FilePath) : Bool :=
  (tree.at? here path).isSome

/-- Whether a path leads to a directory. -/
def isDirectory (tree : FileTree) (here : Location) (path : FilePath) : Bool :=
  tree.at? here path = some .directory

/-- The bytes of the file that a path leads to. -/
def bytes? (tree : FileTree) (here : Location) (path : FilePath) : Option (List UInt8) :=
  match tree.at? here path with
  | some (.file bytes) => some bytes
  | _ => none

/-! ## Reading files -/

/-- The fault of an operation on a path that leads nowhere. -/
def obstacleFault (path : FilePath) : Obstacle → Fault
  | .missing => .nowhere path.text
  | .file => .fileOnTheWay path.text
  | .nul => .nulInPath
  | .long => .longPath path.text

/-- Looking for what is at a path is a fault only if the path is too long. -/
def look (tree : FileTree) (here : Location) (path : FilePath) : Except Fault Unit :=
  match tree.locate here path with
  | .error .long => .error (obstacleFault path .long)
  | _ => .ok ()

/-- Read a file. -/
def read (tree : FileTree) (here : Location) (path : FilePath) : Except Fault (List UInt8) :=
  match tree.locate here path with
  | .error obstacle => .error (obstacleFault path obstacle)
  | .ok location =>
      match tree.entry? location with
      | none => .error (.nowhere path.text)
      | some .directory => .error (.directoryInPlace path.text)
      | some (.file bytes) => .ok bytes

/-! ## Making directories and writing files -/

/-- Why a directory is not made. -/
inductive Refusal
  /-- Something is there already. -/
  | occupied
  /-- The path leads nowhere. -/
  | blocked (obstacle : Obstacle)
  deriving DecidableEq, Repr

/-- Make one directory. -/
def makeDirectory (tree : FileTree) (here : Location) (path : FilePath) :
    Except Refusal FileTree :=
  match tree.locate here path with
  | .error obstacle => .error (.blocked obstacle)
  | .ok location =>
      match tree.entry? location with
      | some _ => .error .occupied
      | none => .ok (tree.set location .directory)

/-- Make one directory unless it is there already. -/
def ensureDirectory (tree : FileTree) (here : Location) (path : FilePath) : Except Fault FileTree :=
  match tree.makeDirectory here path with
  | .ok tree => .ok tree
  | .error .occupied =>
      if tree.isDirectory here path then .ok tree else .error (.fileInPlace path.text)
  | .error (.blocked obstacle) => .error (obstacleFault path obstacle)

/-- Make a directory, given by its names in reverse, and those that it lies in, unless they are
there already.  What has been made before a fault stays. -/
def ensureDirectories (here : Location) (anchor : Anchor) (tree : FileTree) :
    List String → Except Fault Unit × FileTree
  | [] =>
      match tree.ensureDirectory here ⟨anchor, []⟩ with
      | .ok tree => (.ok (), tree)
      | .error fault => (.error fault, tree)
  | name :: above =>
      let path : FilePath := ⟨anchor, (name :: above).reverse⟩
      match tree.makeDirectory here path with
      | .error (.blocked .missing) =>
          match ensureDirectories here anchor tree above with
          | (.error fault, tree) => (.error fault, tree)
          | (.ok (), tree) =>
              match tree.ensureDirectory here path with
              | .ok tree => (.ok (), tree)
              | .error fault => (.error fault, tree)
      | _ =>
          match tree.ensureDirectory here path with
          | .ok tree => (.ok (), tree)
          | .error fault => (.error fault, tree)

/-- Make a directory and those that it lies in. -/
def ensureWithin (tree : FileTree) (here : Location) (path : FilePath) :
    Except Fault Unit × FileTree :=
  ensureDirectories here path.anchor tree path.names.reverse

/-- Write a file. -/
def write (tree : FileTree) (here : Location) (path : FilePath) (bytes : List UInt8) :
    Except Fault FileTree :=
  match tree.locate here path with
  | .error obstacle => .error (obstacleFault path obstacle)
  | .ok location =>
      match tree.entry? location with
      | some .directory => .error (.directoryInPlace path.text)
      | _ => .ok (tree.set location (.file bytes))

/-- Write a file, and make the directories that it lies in. -/
def writeWithin (tree : FileTree) (here : Location) (path : FilePath) (bytes : List UInt8) :
    Except Fault Unit × FileTree :=
  match tree.ensureWithin here path.parent with
  | (.error fault, tree) => (.error fault, tree)
  | (.ok (), tree) =>
      match tree.write here path bytes with
      | .ok tree => (.ok (), tree)
      | .error fault => (.error fault, tree)

end FileTree
end DesignTokens
