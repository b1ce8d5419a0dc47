import DesignTokens.Proofs.File.Writing
import DesignTokens.Proofs.Log.Journal
import DesignTokens.World

/-!
# What programs leave

How the programs here end, and which files they leave, is decided by the files that they find and by
the working directory, which they keep; the journal has no say in it.  A program reads if it leaves
the files as they are.
-/

namespace DesignTokens

/-- Everything lies in a directory, and so does whoever looks at it. -/
structure World.Sound (world : World) : Prop where
  closed : world.files.Closed
  standing : world.files.entry? world.here = some .directory

/-- A world whose root is the working directory and holds one file. -/
def World.sole (name : String) (bytes : List UInt8) : World :=
  ⟨⟨[([name], .file bytes)]⟩, [], .empty⟩

theorem World.sole_sound (name : String) (bytes : List UInt8) : (sole name bytes).Sound := by
  refine ⟨?_, rfl⟩
  intro location present
  cases location with
  | nil => rfl
  | cons first rest =>
      by_cases same : [name] = first :: rest
      · rw [← same]
        rfl
      · exact absurd (if_neg same) present

theorem World.bytes?_sole {name : String} (plain : FilePath.PlainName name) (bytes : List UInt8)
    (here : Location) : (sole name bytes).files.bytes? here ⟨.root, [name]⟩ = some bytes := by
  have held : (sole name bytes).files.entry? [name] = some (.file bytes) := if_pos rfl
  rw [FileTree.bytes?, FileTree.at?_of_name _ here plain, held]

namespace Program

variable {α β : Type}

theorem bind_of_ok {program : Program α} {world after : World} {value : α}
    (ended : program world = (.ok value, after)) (next : α → Program β) :
    (program >>= next) world = next value after := by
  change ExceptT.bindCont next (program world).1 (program world).2 = _
  rw [ended]
  rfl

theorem bind_of_error {program : Program α} {world after : World} {fault : Fault}
    (ended : program world = (.error fault, after)) (next : α → Program β) :
    (program >>= next) world = (.error fault, after) := by
  change ExceptT.bindCont next (program world).1 (program world).2 = _
  rw [ended]
  rfl

/-- A program followed by a mere computation. -/
theorem bind_of_pure {next : α → Program β} {value : α → β}
    (computes : ∀ a world, next a world = (.ok (value a), world)) (program : Program α)
    (world : World) :
    (program >>= next) world = ((program world).1.map value, (program world).2) := by
  cases ended : program world with
  | mk outcome after =>
      cases outcome with
      | error fault => exact bind_of_error ended _
      | ok a => exact (bind_of_ok ended _).trans (computes a after)

/-! ## Leaving files -/

/-- Whatever the journal, a program ends with an outcome and leaves the files `after`. -/
def Leaves (program : Program α) (files : FileTree) (here : Location) (outcome : Except Fault α)
    (after : FileTree) : Prop :=
  ∀ journal, ∃ later, program ⟨files, here, journal⟩ = (outcome, ⟨after, here, later⟩)

namespace Leaves

variable {program : Program α} {files between after : FileTree} {here : Location}

theorem bind_of_ok {value : α} (ended : program.Leaves files here (.ok value) between)
    {next : α → Program β} {outcome : Except Fault β}
    (rest : (next value).Leaves between here outcome after) :
    (program >>= next).Leaves files here outcome after := by
  intro journal
  obtain ⟨later, ended⟩ := ended journal
  rw [Program.bind_of_ok ended]
  exact rest later

theorem bind_of_error {fault : Fault} (ended : program.Leaves files here (.error fault) after)
    (next : α → Program β) : (program >>= next).Leaves files here (.error fault) after := by
  intro journal
  obtain ⟨later, ended⟩ := ended journal
  exact ⟨later, Program.bind_of_error ended next⟩

theorem within {outcome : Except Fault α} (leaves : program.Leaves files here outcome after)
    (entries : Fields Json) : (Program.within entries program).Leaves files here outcome after := by
  intro journal
  obtain ⟨later, ended⟩ := leaves (journal.bindAll entries)
  refine ⟨later.unbindAll (Fields.keys entries), ?_⟩
  rw [Program.within, ended]

end Leaves

theorem write_leaves {files after : FileTree} {here : Location} {path : FilePath}
    {bytes : List UInt8} {outcome : Except Fault Unit}
    (wrote : files.writeWithin here path bytes = (outcome, after)) :
    (write path bytes).Leaves files here outcome after := by
  intro journal
  refine ⟨journal, ?_⟩
  rw [write, wrote]

/-! ## Reading files -/

/-- A program leaves all files as they are. -/
def Reads (program : Program α) (outcome : FileTree → Location → Except Fault α) : Prop :=
  ∀ files here, program.Leaves files here (outcome files here) files

namespace Reads

variable {program : Program α} {outcome : FileTree → Location → Except Fault α}

theorem fail (fault : Fault) : Reads (Program.fail fault : Program α) fun _ _ => .error fault :=
  fun _ _ journal => ⟨journal, rfl⟩

theorem ofExcept (ended : Except Fault α) : Reads (Program.ofExcept ended) fun _ _ => ended :=
  fun _ _ journal => ⟨journal, rfl⟩

theorem ofJournaled {work : Journaled α} {ended : Except Fault α}
    (ends : ∀ journal, (work journal).1 = ended) :
    Reads (Program.ofJournaled work) fun _ _ => ended :=
  fun _ _ journal => ⟨(work journal).2, congrArg (·, _) (ends journal)⟩

theorem look (path : FilePath) : Reads (Program.look path) fun files here => files.look here path :=
  fun _ _ journal => ⟨journal, rfl⟩

theorem bind (reads : Reads program outcome) {next : α → Program β}
    {later : α → FileTree → Location → Except Fault β}
    (rest : ∀ value, Reads (next value) (later value)) :
    Reads (program >>= next) fun files here =>
      (outcome files here).bind fun value => later value files here := by
  intro files here
  have ended := reads files here
  dsimp only
  cases decided : outcome files here with
  | error fault => exact (decided ▸ ended).bind_of_error next
  | ok value => exact (decided ▸ ended).bind_of_ok (rest value files here)

theorem congr (reads : Reads program outcome) {other : FileTree → Location → Except Fault α}
    (same : ∀ files here, outcome files here = other files here) : Reads program other :=
  fun files here => same files here ▸ reads files here

end Reads

theorem reads_bytes? (path : FilePath) :
    Reads (bytes? path) fun files here =>
      (files.look here path).bind fun _ => .ok (files.bytes? here path) :=
  (Reads.look path).bind fun _ => fun _ _ journal => ⟨journal, rfl⟩

theorem hasEntry_of_unseen {path : FilePath} {world : World} {fault : Fault}
    (unseen : world.files.look world.here path = .error fault) :
    hasEntry path world = (.error fault, world) :=
  bind_of_error (congrArg (·, world) unseen) _

theorem hasEntry_of_looked {path : FilePath} {world : World}
    (looked : world.files.look world.here path = .ok ()) :
    hasEntry path world = (.ok (world.files.hasEntry world.here path), world) :=
  bind_of_ok (congrArg (·, world) looked) _

end Program
end DesignTokens
