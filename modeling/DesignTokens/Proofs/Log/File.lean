import DesignTokens.Log.Output
import DesignTokens.Proofs.World

/-!
# Log files

To make a log file ready, directories are made on its way where there was nothing, and the file if it
is not there.  Lines are added at its end.  Neither changes anything else.
-/

namespace DesignTokens

/-- Where the log file of someone in a directory is. -/
def LogFile.location (here : Location) (path : FilePath) : Location :=
  (FilePath.absolute ⟨.root, here⟩ path).names

namespace FileTree

variable {tree between after : FileTree} {here : Location} {path : FilePath}

/-- A tree is another one with a log file that has been made or has grown, and with directories made
on its way. -/
structure Logged (here : Location) (path : FilePath) (tree after : FileTree) : Prop where
  kept : ∀ location, tree.entry? location ≠ none →
    after.entry? location = tree.entry? location ∨
    location = LogFile.location here path ∧ ∃ bytes added,
      tree.entry? location = some (.file bytes) ∧
      after.entry? location = some (.file (bytes ++ added))
  made : ∀ location, tree.entry? location = none → after.entry? location ≠ none →
    location = LogFile.location here path ∨
    after.entry? location = some .directory ∧ after.OnTheWay here path.parent location
  closed : tree.Closed → tree.entry? here = some .directory → after.Closed

namespace Logged

theorem directory (logged : Logged here path tree after) {location : Location}
    (found : tree.entry? location = some .directory) :
    after.entry? location = some .directory := by
  rcases logged.kept location (found ▸ nofun) with same | ⟨-, bytes, -, file, -⟩
  · rw [same, found]
  · exact absurd (found.symm.trans file) nofun

theorem kept_of_ne (logged : Logged here path tree after) {location : Location}
    (apart : location ≠ LogFile.location here path) (present : tree.entry? location ≠ none) :
    after.entry? location = tree.entry? location :=
  (logged.kept location present).resolve_right fun grown => apart grown.1

theorem refl (here : Location) (path : FilePath) (tree : FileTree) : Logged here path tree tree where
  kept _ _ := .inl rfl
  made _ free present := absurd free present
  closed closed _ := closed

theorem trans (first : Logged here path tree between) (second : Logged here path between after) :
    Logged here path tree after where
  kept location present := by
    rcases first.kept location present with same | ⟨place, bytes, added, file, longer⟩
    · exact same ▸ second.kept location (same ▸ present)
    · rcases second.kept location (longer ▸ nofun) with same | ⟨-, bytes', more, again, longest⟩
      · exact .inr ⟨place, bytes, added, file, same.trans longer⟩
      · obtain rfl := FileEntry.file.inj (Option.some.inj (longer.symm.trans again))
        exact .inr ⟨place, bytes, added ++ more, file, by rw [longest, List.append_assoc]⟩
  made location free present := by
    by_cases early : between.entry? location = none
    · exact second.made location early present
    · refine (first.made location free early).imp_right ?_
      rintro ⟨directory, names, leading, located⟩
      refine ⟨second.directory directory, names, leading, ?_⟩
      exact locate_mono (fun _ => second.directory) located
  closed closed standing := second.closed (first.closed closed standing) (first.directory standing)

theorem of_prepared (prepared : Prepared here path.parent tree after) :
    Logged here path tree after where
  kept location present := .inl (prepared.kept location present)
  made location free present := .inr (prepared.made location free present)
  closed := prepared.closed

/-- A log file grows when bytes are added to it. -/
theorem of_write {added : List UInt8}
    (wrote : tree.write here (.absolute ⟨.root, here⟩ path)
      ((tree.bytes? here (.absolute ⟨.root, here⟩ path)).getD [] ++ added) = .ok after) :
    Logged here path tree after := by
  unfold write at wrote
  split at wrote
  · exact absurd wrote nofun
  · rename_i location located
    obtain rfl : location = LogFile.location here path :=
      walk_straight (FilePath.not_mem_absolute _ _) (walk_of_locate located)
    split at wrote
    · exact absurd wrote nofun
    · rename_i vacant
      obtain rfl := Except.ok.inj wrote
      refine ⟨?_, ?_, ?_⟩
      · intro other present
        by_cases same : LogFile.location here path = other
        · subst same
          rw [entry?_set_self vacant]
          cases found : tree.entry? (LogFile.location here path) with
          | none => exact absurd found present
          | some entry =>
              cases entry with
              | directory => exact absurd found vacant
              | file bytes =>
                  have old : tree.bytes? here (.absolute ⟨.root, here⟩ path) = some bytes := by
                    rw [bytes?, at?, located]
                    simp only [found]
                  exact .inr ⟨rfl, bytes, added, rfl, by rw [old, Option.getD_some]⟩
        · exact .inl (entry?_set_of_ne vacant same _)
      · intro other free present
        by_cases same : LogFile.location here path = other
        · exact .inl same.symm
        · exact absurd ((entry?_set_of_ne vacant same _).trans free) present
      · exact fun closed standing =>
          closed.set (closed.parent_of_locate standing located) vacant _

end Logged
end FileTree

theorem World.Sound.of_logged {world after : World} {path : FilePath} (sound : world.Sound)
    (logged : FileTree.Logged world.here path world.files after.files)
    (here : after.here = world.here) : after.Sound :=
  ⟨logged.closed sound.closed sound.standing, here ▸ logged.directory sound.standing⟩

namespace LogFile

variable {path : FilePath}

/-- A program that does no more to the files than to keep a log file. -/
def Keeps (path : FilePath) (program : Program Unit) : Prop :=
  ∀ world : World, FileTree.Logged world.here path world.files (program world).2.files ∧
    (program world).2.here = world.here

namespace Keeps

theorem bind {first second : Program Unit} (keeps : Keeps path first) (also : Keeps path second) :
    Keeps path (first >>= fun _ => second) := by
  intro world
  obtain ⟨logged, here⟩ := keeps world
  cases ended : first world with
  | mk outcome between =>
      rw [ended] at logged here
      cases outcome with
      | error fault =>
          rw [Program.bind_of_error ended]
          exact ⟨logged, here⟩
      | ok =>
          rw [Program.bind_of_ok ended]
          obtain ⟨later, stays⟩ := also between
          rw [here] at later
          exact ⟨logged.trans later, stays.trans here⟩

theorem makeDirectories (path : FilePath) : Keeps path (Program.makeDirectories path.parent) := by
  intro world
  exact ⟨.of_prepared (.of_ensureWithin (List.prefix_refl _)), rfl⟩

theorem append (path : FilePath) (bytes : List UInt8) :
    Keeps path (locate path >>= fun file => Program.append file bytes) := by
  intro world
  have located : locate path world = (.ok (.absolute ⟨.root, world.here⟩ path), world) := rfl
  rw [Program.bind_of_ok located, Program.append]
  split
  · rename_i wrote
    exact ⟨.of_write wrote, rfl⟩
  · exact ⟨.refl _ _ _, rfl⟩

end Keeps

theorem keeps_prepare (path : FilePath) : Keeps path (prepare path) :=
  (Keeps.makeDirectories path).bind (.append path [])

theorem keeps_add (path : FilePath) (lines : List String) : Keeps path (add path lines) :=
  .append path _

end LogFile
end DesignTokens
