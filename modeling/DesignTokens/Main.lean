import DesignTokens.Command.Console

/-!
# The program

A command line is run on a picture of those files that it may look at.  What the run changes in the
picture is then changed on disk.
-/

namespace DesignTokens
namespace Disk

/-- What is at a location on disk. -/
def entry? (location : Location) : IO (Option FileEntry) := do
  let path := (← IO.currentDir) / FilePath.text ⟨.root, location⟩
  if ← path.isDir then return some .directory
  else if ← path.pathExists then return some (.file (← IO.FS.readBinFile path).toList)
  else return none

/-- Note in a picture what is at a location. -/
def note (picture : FileTree) (location : Location) : IO FileTree := do
  match ← entry? location with
  | some entry => return picture.set location entry
  | none => return picture

/-- Note in a picture what is on the way along some names, and at its end. -/
def survey (picture : FileTree) (location : Location) : List String → IO FileTree
  | [] => note picture location
  | name :: rest => do
      survey (← note picture location)
        (if name = ".." then location.dropLast else location ++ [name]) rest

/-- Note in a picture what some paths lead to from a directory. -/
def surveyAll (here : Location) (picture : FileTree) : List FilePath → IO FileTree
  | [] => return picture
  | path :: rest => do
      let start := if path.anchor = .here then here else []
      surveyAll here (← survey picture start path.names) rest

/-- Make one entry on disk. -/
def save (location : Location) (entry : FileEntry) : IO Unit := do
  let path := (← IO.currentDir) / FilePath.text ⟨.root, location⟩
  match entry with
  | .directory => IO.FS.createDir path
  | .file bytes => IO.FS.writeBinFile path ⟨bytes.toArray⟩

/-- Make all entries on disk that a picture does not show. -/
def saveAll (picture : FileTree) : List (Location × FileEntry) → IO Unit
  | [] => return
  | (location, entry) :: rest => do
      if picture.entry? location ≠ some entry then save location entry
      saveAll picture rest

end Disk

namespace Shell

/-- The variables in a block of bytes where each ends in a zero byte. -/
def assignments (block : List UInt8) : Fields String :=
  (Text.split 0 block).filterMap fun bytes =>
    match Text.Utf8.decode bytes with
    | .ok cs =>
        let (name, value) := Grammar.splitEquals cs
        value.map fun value => (String.ofList name, String.ofList value)
    | .error _ => none

/-- The environment variables. -/
def readEnvironment : IO (Fields String) := do
  match ← (IO.FS.readBinFile "/proc/self/environ").toBaseIO with
  | .ok block => return assignments block.toList
  | .error _ => return []

/-- The shell that a command line is run in. -/
def enter (arguments : List String) : IO Shell := do
  let here := (FilePath.ofText (← IO.currentDir).toString).names
  let environment ← readEnvironment
  let picture ← Disk.surveyAll here .empty [settingsFile]
  let shell : Shell := ⟨⟨picture, here, .empty⟩, environment, none⟩
  let paths := shell.paths arguments
  let absolute := paths.map (FilePath.absolute ⟨.root, here⟩)
  let picture ← Disk.surveyAll here picture (paths ++ absolute)
  return { shell with world := { shell.world with files := picture } }

/-- Run a command line, change on disk what it changes, and show what it writes. -/
def serve (arguments : List String) : IO UInt32 := do
  let before ← enter arguments
  let (result, after) := before.runAtConsole arguments
  Disk.saveAll before.world.files after.world.files.entries
  IO.print result.output
  IO.eprint (result.errorText after.world.journal.records)
  return UInt32.ofNat result.code

end Shell
end DesignTokens

/-- Run the command line. -/
def main (arguments : List String) : IO UInt32 := DesignTokens.Shell.serve arguments
