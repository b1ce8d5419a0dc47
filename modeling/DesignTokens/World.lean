import DesignTokens.File.Tree
import DesignTokens.Log.Journal

/-!
# The world of a run

A run sees a file tree from a working directory and keeps a journal.  A program may change both, and
what it changed before a fault stays.
-/

namespace DesignTokens

/-- What a run sees and changes. -/
structure World where
  /-- Files and directories. -/
  files : FileTree
  /-- The working directory. -/
  here : Location
  /-- The journal. -/
  journal : Journal

/-- A run that may end in a fault. -/
abbrev Program := ExceptT Fault (StateM World)

namespace Program

variable {α : Type}

/-- End with a fault. -/
def fail (fault : Fault) : Program α := fun world => (.error fault, world)

/-- The outcome of a computation. -/
def ofExcept (outcome : Except Fault α) : Program α := fun world => (outcome, world)

/-- Work on the journal. -/
def ofJournaled (work : Journaled α) : Program α :=
  fun world =>
    let (outcome, journal) := work world.journal
    (outcome, { world with journal })

/-- Run a program with entries bound in the journal, and unbind them however it ends. -/
def within (entries : Fields Json) (program : Program α) : Program α :=
  fun world =>
    let (outcome, after) := program { world with journal := world.journal.bindAll entries }
    (outcome, { after with journal := after.journal.unbindAll (Fields.keys entries) })

/-- Look for what is at a path. -/
def look (path : FilePath) : Program Unit :=
  fun world => (world.files.look world.here path, world)

/-- The bytes of the file that a path leads to, if any. -/
def bytes? (path : FilePath) : Program (Option (List UInt8)) := do
  look path
  return (← get).files.bytes? (← get).here path

/-- Read a file. -/
def read (path : FilePath) : Program (List UInt8) :=
  fun world => (world.files.read world.here path, world)

/-- Whether a path leads to something. -/
def hasEntry (path : FilePath) : Program Bool := do
  look path
  return (← get).files.hasEntry (← get).here path

/-- Write a file, and make the directories that it lies in. -/
def write (path : FilePath) (bytes : List UInt8) : Program Unit :=
  fun world =>
    let (outcome, files) := world.files.writeWithin world.here path bytes
    (outcome, { world with files })

/-- Make a directory and those that it lies in. -/
def makeDirectories (path : FilePath) : Program Unit :=
  fun world =>
    let (outcome, files) := world.files.ensureWithin world.here path
    (outcome, { world with files })

/-- Add bytes at the end of a file, which need not be there. -/
def append (path : FilePath) (bytes : List UInt8) : Program Unit :=
  fun world =>
    let old := (world.files.bytes? world.here path).getD []
    match world.files.write world.here path (old ++ bytes) with
    | .ok files => (.ok (), { world with files })
    | .error fault => (.error fault, world)

end Program
end DesignTokens
