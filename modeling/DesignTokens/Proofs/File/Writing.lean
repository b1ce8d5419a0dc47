import DesignTokens.Proofs.File.Tree

/-!
# Making directories and writing files

Whatever the path, making directories adds directories on its way where there was nothing, and
writing a file changes that file only; a closed tree stays closed.  Below a directory, the plain part
of a path is made as a whole or, if a file is in the way, not at all.
-/

namespace DesignTokens

/-- Where a path begins for someone in a directory. -/
def Anchor.start (anchor : Anchor) (here : Location) : Location :=
  if anchor = .here then here else []

/-! ## Paths that the system takes -/

namespace FilePath

/-- A path is short enough and has no character that the system refuses. -/
structure Fits (path : FilePath) : Prop where
  nulFree : ∀ name ∈ path.names, name.contains '\x00' = false
  short : path.text.utf8ByteSize < 4096

theorem utf8ByteSize_intercalate_le {names longer : List String} (leading : names <+: longer) :
    (String.intercalate "/" names).utf8ByteSize ≤ (String.intercalate "/" longer).utf8ByteSize := by
  obtain ⟨rest, rfl⟩ := leading
  induction names with
  | nil => simp
  | cons name names ih =>
      cases names with
      | nil =>
          cases rest with
          | nil => simp
          | cons first others =>
              rw [List.singleton_append, String.intercalate_cons_cons, String.intercalate_singleton]
              simp only [String.utf8ByteSize_append]
              omega
      | cons second others =>
          rw [List.cons_append, List.cons_append, String.intercalate_cons_cons,
            String.intercalate_cons_cons]
          rw [List.cons_append] at ih
          simp only [String.utf8ByteSize_append]
          omega

theorem Fits.of_prefix {path : FilePath} (fits : path.Fits) {names : List String}
    (leading : names <+: path.names) : Fits { path with names } := by
  refine ⟨fun name member => fits.nulFree name (leading.subset member), ?_⟩
  have short := fits.short
  have shorter := utf8ByteSize_intercalate_le leading
  unfold text at short ⊢
  dsimp only
  split
  · decide
  · rename_i written
    have longerWritten : ¬(path.anchor = .here ∧ path.names.isEmpty) := by
      rintro ⟨anchored, empty⟩
      rw [List.isEmpty_iff.mp empty, List.prefix_nil] at leading
      exact written ⟨anchored, by rw [leading]; rfl⟩
    rw [if_neg longerWritten] at short
    simp only [String.utf8ByteSize_append] at short ⊢
    omega

end FilePath

namespace FileTree

open FilePath

variable {tree after : FileTree} {here location : Location} {path : FilePath}

theorem not_any_nul {names : List String}
    (nulFree : ∀ name ∈ names, name.contains '\x00' = false) :
    ¬names.any (fun name => name.contains '\x00') = true := by
  rw [Bool.not_eq_true, List.any_eq_false]
  exact fun name member => Bool.not_eq_true _ ▸ nulFree name member

theorem locate_of_fits (fits : path.Fits) (tree : FileTree) (here : Location) :
    tree.locate here path = tree.walk (path.anchor.start here) path.names := by
  rw [locate, if_neg (not_any_nul fits.nulFree), if_neg (Nat.not_le.mpr fits.short)]
  rfl

theorem fits_of_locate (located : tree.locate here path = .ok location) : path.Fits := by
  unfold locate at located
  split at located
  · exact absurd located nofun
  · rename_i nulFree
    split at located
    · exact absurd located nofun
    · rename_i short
      rw [Bool.not_eq_true, List.any_eq_false] at nulFree
      exact ⟨fun name member => Bool.not_eq_true _ ▸ nulFree name member,
        Nat.not_le.mp short⟩

theorem walk_of_locate (located : tree.locate here path = .ok location) :
    tree.walk (path.anchor.start here) path.names = .ok location := by
  rw [← locate_of_fits (fits_of_locate located), located]

/-- The system takes a plain path that can be looked for. -/
theorem fits_of_look (plain : path.Plain) (looked : tree.look here path = .ok ()) : path.Fits := by
  have nulFree : ∀ name ∈ path.names, name.contains '\x00' = false :=
    fun name member => (plain name member).nulFree
  refine ⟨nulFree, ?_⟩
  by_contra long
  have refused : tree.locate here path = .error .long := by
    rw [locate, if_neg (not_any_nul nulFree), if_pos (Nat.not_lt.mp long)]
  rw [look_of_long refused] at looked
  exact absurd looked nofun

theorem locate_mono (kept : ∀ location, tree.entry? location = some .directory →
      after.entry? location = some .directory)
    (located : tree.locate here path = .ok location) : after.locate here path = .ok location := by
  rw [locate_of_fits (fits_of_locate located)]
  exact walk_mono kept (walk_of_locate located)

/-- In a closed tree, a path leads to something in a directory. -/
theorem Closed.parent_of_locate (closed : tree.Closed)
    (standing : tree.entry? here = some .directory)
    (located : tree.locate here path = .ok location) :
    tree.entry? location.dropLast = some .directory := by
  refine closed.walk ?_ (walk_of_locate located)
  unfold Anchor.start
  split
  · exact closed here (standing ▸ nofun)
  · rfl

/-! ## Making directories -/

/-- Make one directory, all directories above it being there. -/
def ensureLast (tree : FileTree) (here : Location) (path : FilePath) :
    Except Fault Unit × FileTree :=
  match tree.ensureDirectory here path with
  | .ok tree => (.ok (), tree)
  | .error fault => (.error fault, tree)

theorem ensureLast_of_free (located : tree.locate here path = .ok location)
    (free : tree.entry? location = none) :
    tree.ensureLast here path = (.ok (), tree.set location .directory) := by
  simp only [ensureLast, ensureDirectory, makeDirectory, located, free]

theorem ensureLast_of_directory (located : tree.locate here path = .ok location)
    (directory : tree.entry? location = some .directory) :
    tree.ensureLast here path = (.ok (), tree) := by
  simp [ensureLast, ensureDirectory, makeDirectory, isDirectory, at?, located, directory]

theorem ensureLast_of_file (located : tree.locate here path = .ok location) {bytes : List UInt8}
    (file : tree.entry? location = some (.file bytes)) :
    tree.ensureLast here path = (.error (.fileInPlace path.text), tree) := by
  simp [ensureLast, ensureDirectory, makeDirectory, isDirectory, at?, located, file]

theorem ensureLast_of_stopped {obstacle : Obstacle}
    (stopped : tree.locate here path = .error obstacle) :
    tree.ensureLast here path = (.error (obstacleFault path obstacle), tree) := by
  simp only [ensureLast, ensureDirectory, makeDirectory, stopped]

theorem makeDirectory_eq_missing_iff :
    tree.makeDirectory here path = .error (.blocked .missing) ↔
      tree.locate here path = .error .missing := by
  unfold makeDirectory
  split
  · rename_i stopped
    simp [stopped]
  · rename_i location located
    rw [located]
    split <;> simp

theorem ensureWithin_of_missing (missing : tree.locate here path = .error .missing) :
    tree.ensureWithin here path =
      match tree.ensureWithin here path.parent with
      | (.error fault, tree) => (.error fault, tree)
      | (.ok (), tree) => tree.ensureLast here path := by
  obtain ⟨anchor, names⟩ := path
  cases names using List.reverseRecOn with
  | nil =>
      unfold locate at missing
      split at missing
      · exact absurd missing nofun
      · split at missing <;> exact absurd missing nofun
  | append_singleton names name =>
      have back : (name :: names.reverse).reverse = names ++ [name] := by simp
      rw [ensureWithin, List.reverse_concat, ensureDirectories, back,
        makeDirectory_eq_missing_iff.mpr missing, ensureWithin, parent, List.dropLast_concat]
      rfl

theorem ensureWithin_of_unmissed (unmissed : tree.locate here path ≠ .error .missing) :
    tree.ensureWithin here path = tree.ensureLast here path := by
  obtain ⟨anchor, names⟩ := path
  cases names using List.reverseRecOn with
  | nil => rfl
  | append_singleton names name =>
      have back : (name :: names.reverse).reverse = names ++ [name] := by simp
      rw [ensureWithin, List.reverse_concat, ensureDirectories, back]
      split
      · rename_i missing
        exact absurd (makeDirectory_eq_missing_iff.mp missing) unmissed
      · rfl

/-- A location is on the way of a path. -/
def OnTheWay (tree : FileTree) (here : Location) (path : FilePath) (location : Location) : Prop :=
  ∃ names, names <+: path.names ∧ tree.locate here { path with names } = .ok location

/-- A tree is another one with directories made on the way of a path. -/
structure Prepared (here : Location) (path : FilePath) (tree after : FileTree) : Prop where
  kept : ∀ location, tree.entry? location ≠ none →
    after.entry? location = tree.entry? location
  made : ∀ location, tree.entry? location = none → after.entry? location ≠ none →
    after.entry? location = some .directory ∧ after.OnTheWay here path location
  closed : tree.Closed → tree.entry? here = some .directory → after.Closed

namespace Prepared

theorem directory (prepared : Prepared here path tree after)
    (found : tree.entry? location = some .directory) :
    after.entry? location = some .directory := by
  rw [prepared.kept location (found ▸ nofun), found]

theorem refl (tree : FileTree) : Prepared here path tree tree where
  kept _ _ := rfl
  made _ free present := absurd free present
  closed closed _ := closed

theorem trans {between : FileTree} (first : Prepared here path tree between)
    (second : Prepared here path between after) : Prepared here path tree after where
  kept location present := by
    rw [second.kept location (first.kept location present ▸ present), first.kept location present]
  made location free present := by
    by_cases early : between.entry? location = none
    · exact second.made location early present
    · obtain ⟨directory, names, leading, located⟩ := first.made location free early
      refine ⟨second.directory directory, names, leading, ?_⟩
      exact locate_mono (fun _ => second.directory) located
  closed closed standing := second.closed (first.closed closed standing) (first.directory standing)

/-- A prepared tree can be prepared further by a directory on the way. -/
theorem of_makeDirectory {names : List String} (leading : names <+: path.names)
    (made : tree.makeDirectory here { path with names } = .ok after) :
    Prepared here path tree after := by
  unfold makeDirectory at made
  split at made
  · exact absurd made nofun
  · rename_i location located
    split at made
    · exact absurd made nofun
    · rename_i free
      obtain rfl := Except.ok.inj made
      have vacant := ne_directory_of_vacant free
      have kept : ∀ other, tree.entry? other ≠ none →
          entry? (tree.set location .directory) other = tree.entry? other := by
        intro other present
        apply entry?_set_of_ne vacant
        rintro rfl
        exact present free
      refine ⟨kept, ?_, ?_⟩
      · intro other otherFree present
        by_cases same : location = other
        · subst same
          refine ⟨entry?_set_self vacant _, names, leading, locate_mono ?_ located⟩
          intro above directory
          rw [kept above (directory ▸ nofun), directory]
        · rw [entry?_set_of_ne vacant same] at present
          exact absurd otherFree present
      · exact fun closed standing =>
          closed.set (closed.parent_of_locate standing located) vacant .directory

theorem of_ensureDirectory {names : List String} (leading : names <+: path.names)
    (ensured : tree.ensureDirectory here { path with names } = .ok after) :
    Prepared here path tree after := by
  unfold ensureDirectory at ensured
  split at ensured
  · rename_i made
    exact of_makeDirectory leading (Except.ok.inj ensured ▸ made)
  · split at ensured
    · exact Except.ok.inj ensured ▸ refl tree
    · exact absurd ensured nofun
  · exact absurd ensured nofun

theorem of_ensureLast {names : List String} (leading : names <+: path.names) :
    Prepared here path tree (tree.ensureLast here { path with names }).2 := by
  unfold ensureLast
  split
  · rename_i ensured
    exact of_ensureDirectory leading ensured
  · exact refl tree

theorem of_ensureWithin {names : List String} (leading : names <+: path.names) :
    Prepared here path tree (tree.ensureWithin here { path with names }).2 := by
  induction names using List.reverseRecOn with
  | nil => exact of_ensureLast leading
  | append_singleton names name ih =>
      by_cases missing : tree.locate here { path with names := names ++ [name] } = .error .missing
      · rw [ensureWithin_of_missing missing]
        have earlier := ih ((List.prefix_append _ _).trans leading)
        rw [parent, List.dropLast_concat]
        split
        · rename_i made
          exact made ▸ earlier
        · rename_i made
          rw [made] at earlier
          exact earlier.trans (of_ensureLast leading)
      · rw [ensureWithin_of_unmissed missing]
        exact of_ensureLast leading

end Prepared

/-! ## Writing files -/

/-- A tree is another one with a file written at a location that a path leads to, and with
directories made on the way. -/
structure Written (here : Location) (path : FilePath) (bytes : List UInt8) (location : Location)
    (tree after : FileTree) : Prop where
  located : after.locate here path = .ok location
  file : after.entry? location = some (.file bytes)
  kept : ∀ other, other ≠ location → tree.entry? other ≠ none →
    after.entry? other = tree.entry? other
  made : ∀ other, other ≠ location → tree.entry? other = none → after.entry? other ≠ none →
    after.entry? other = some .directory ∧ after.OnTheWay here path.parent other
  vacant : tree.entry? location ≠ some .directory
  closed : tree.Closed → tree.entry? here = some .directory → after.Closed

theorem Written.directory {bytes : List UInt8}
    (written : Written here path bytes location tree after) {other : Location}
    (found : tree.entry? other = some .directory) : after.entry? other = some .directory := by
  have apart : other ≠ location := by
    rintro rfl
    exact written.vacant found
  rw [written.kept other apart (found ▸ nofun), found]

theorem Written.bytes? {bytes : List UInt8}
    (written : Written here path bytes location tree after) :
    after.bytes? here path = some bytes := by
  rw [FileTree.bytes?, at?, written.located]
  simp only [written.file]

theorem Prepared.written {between : FileTree} (prepared : Prepared here path.parent tree between)
    (located : between.locate here path = .ok location)
    (vacant : between.entry? location ≠ some .directory) (bytes : List UInt8) :
    Written here path bytes location tree (between.set location (.file bytes)) := by
  have kept : ∀ other, between.entry? other = some .directory →
      entry? (between.set location (.file bytes)) other = some .directory := by
    intro other directory
    rw [entry?_set_of_ne vacant, directory]
    rintro rfl
    exact vacant directory
  refine ⟨locate_mono kept located, entry?_set_self vacant _, ?_, ?_, ?_, ?_⟩
  · intro other apart present
    rw [entry?_set_of_ne vacant apart.symm, prepared.kept other present]
  · intro other apart free present
    rw [entry?_set_of_ne vacant apart.symm] at present ⊢
    obtain ⟨directory, names, leading, reached⟩ := prepared.made other free present
    exact ⟨directory, names, leading, locate_mono kept reached⟩
  · exact fun directory => vacant (prepared.directory directory)
  · intro closed standing
    have later := prepared.closed closed standing
    exact later.set (later.parent_of_locate (prepared.directory standing) located) vacant _

/-- The steps of a write that succeeds. -/
theorem exists_steps_of_writeWithin {bytes : List UInt8}
    (wrote : tree.writeWithin here path bytes = (.ok (), after)) :
    ∃ between location, tree.ensureWithin here path.parent = (.ok (), between) ∧
      between.locate here path = .ok location ∧ between.entry? location ≠ some .directory ∧
      after = between.set location (.file bytes) := by
  unfold writeWithin at wrote
  split at wrote
  · exact absurd (congrArg Prod.fst wrote) nofun
  · rename_i between made
    unfold write at wrote
    split at wrote
    · rename_i done
      obtain ⟨-, rfl⟩ := Prod.mk.inj wrote
      split at done
      · exact absurd done nofun
      · rename_i location located
        split at done
        · exact absurd done nofun
        · rename_i vacant
          exact ⟨between, location, made, located, vacant, (Except.ok.inj done).symm⟩
    · exact absurd (congrArg Prod.fst wrote) nofun

/-- A write that succeeds puts a file where its path leads to. -/
theorem exists_written_of_writeWithin {bytes : List UInt8}
    (wrote : tree.writeWithin here path bytes = (.ok (), after)) :
    ∃ location, Written here path bytes location tree after := by
  obtain ⟨between, location, made, located, vacant, rfl⟩ := exists_steps_of_writeWithin wrote
  have prepared : Prepared here path.parent tree (tree.ensureWithin here path.parent).2 :=
    .of_ensureWithin (List.prefix_refl _)
  rw [made] at prepared
  exact ⟨location, prepared.written located vacant bytes⟩

/-- A write that fails leaves at most directories behind. -/
theorem prepared_of_writeWithin {bytes : List UInt8} {fault : Fault}
    (failed : tree.writeWithin here path bytes = (.error fault, after)) :
    Prepared here path.parent tree after := by
  unfold writeWithin at failed
  have prepared : Prepared here path.parent tree (tree.ensureWithin here path.parent).2 :=
    .of_ensureWithin (List.prefix_refl _)
  split at failed
  · rename_i made
    rw [made] at prepared
    obtain ⟨-, rfl⟩ := Prod.mk.inj failed
    exact prepared
  · rename_i between made
    rw [made] at prepared
    split at failed
    · exact absurd (congrArg Prod.fst failed) nofun
    · obtain ⟨-, rfl⟩ := Prod.mk.inj failed
      exact prepared

/-! ## Below a directory -/

theorem not_concat_prefix (names : List String) (name : String) : ¬names ++ [name] <+: names := by
  intro leading
  have longer := leading.length_le
  rw [List.length_append] at longer
  exact Nat.not_succ_le_self _ longer

/-- A path leads to a directory and on by plain names. -/
structure Leads (tree : FileTree) (here : Location) (path : FilePath) (base : Location)
    (names : List String) : Prop where
  closed : tree.Closed
  standing : tree.entry? here = some .directory
  fits : path.Fits
  reached : ∃ front, path.names = front ++ names ∧
    tree.walk (path.anchor.start here) front = .ok base
  directory : tree.entry? base = some .directory
  plain : ∀ name ∈ names, PlainName name

/-- A plain path that the system takes leads on from where it begins. -/
theorem leads_of_plain (closed : tree.Closed) (standing : tree.entry? here = some .directory)
    (fits : path.Fits) (plain : path.Plain) :
    Leads tree here path (path.anchor.start here) path.names := by
  refine ⟨closed, standing, fits, ⟨[], rfl, rfl⟩, ?_, plain⟩
  unfold Anchor.start
  split
  · exact standing
  · rfl

namespace Leads

variable {base : Location} {names : List String} {name : String}

theorem locate_eq (leads : Leads tree here path base names) :
    tree.locate here path = tree.walk base names := by
  obtain ⟨front, split, reached⟩ := leads.reached
  rw [locate_of_fits leads.fits, split, walk_append, reached]
  rfl

theorem locate_of_present (leads : Leads tree here path base names)
    (present : tree.entry? (base ++ names) ≠ none) :
    tree.locate here path = .ok (base ++ names) := by
  rw [leads.locate_eq, leads.closed.walk_of_present leads.plain present]

theorem eq_of_locate (leads : Leads tree here path base names)
    (located : tree.locate here path = .ok location) : location = base ++ names :=
  walk_straight (not_mem_of_plain leads.plain) (leads.locate_eq ▸ located)

theorem of_prepared (leads : Leads tree here path base names) {other : FilePath}
    (prepared : Prepared here other tree after) : Leads after here path base names := by
  obtain ⟨front, split, reached⟩ := leads.reached
  exact ⟨prepared.closed leads.closed leads.standing, prepared.directory leads.standing, leads.fits,
    ⟨front, split, walk_mono (fun _ => prepared.directory) reached⟩,
    prepared.directory leads.directory, leads.plain⟩

/-- A place in a directory is not on the way to the directory. -/
theorem append_concat_ne (base : Location) (part : List String) (leading : part <+: names) :
    base ++ (names ++ [name]) ≠ base ++ part := by
  intro equal
  rw [← List.append_cancel_left equal] at leading
  exact not_concat_prefix names name leading

/-- The path without its last name. -/
theorem parent (leads : Leads tree here path base (names ++ [name])) :
    Leads tree here path.parent base names := by
  obtain ⟨front, split, reached⟩ := leads.reached
  rw [← List.append_assoc] at split
  have shorter : path.names.dropLast = front ++ names := by rw [split, List.dropLast_concat]
  refine ⟨leads.closed, leads.standing, ?_, ⟨front, shorter, reached⟩, leads.directory, ?_⟩
  · exact leads.fits.of_prefix (List.dropLast_prefix _)
  · exact fun other member => leads.plain other (List.mem_append_left _ member)

/-- A path to a directory is there already. -/
theorem ensureWithin_of_directory (leads : Leads tree here path base names)
    (found : tree.entry? (base ++ names) = some .directory) :
    tree.ensureWithin here path = (.ok (), tree) := by
  have located := leads.locate_of_present (found ▸ nofun)
  rw [ensureWithin_of_unmissed (located ▸ nofun), ensureLast_of_directory located found]

/-- Once its directory has been made, a path leads to a place in it. -/
theorem locate_last (leads : Leads tree here path base (names ++ [name]))
    (made : tree.ensureWithin here path.parent = (.ok (), after))
    (directory : after.entry? (base ++ names) = some .directory) :
    after.locate here path = .ok (base ++ (names ++ [name])) := by
  have prepared : Prepared here path.parent tree after := by
    have every : Prepared here path.parent tree (tree.ensureWithin here path.parent).2 :=
      .of_ensureWithin (List.prefix_refl _)
    rwa [made] at every
  have later := leads.of_prepared prepared
  rw [later.locate_eq, later.closed.walk_of_directory later.parent.plain directory
    (later.plain name (by simp)), List.append_assoc]

/-- If the last directory of a path is not missing, it is made or is there already, or a file is in
the way. -/
theorem ensureLast_cases (leads : Leads tree here path base names)
    (unmissed : tree.locate here path ≠ .error .missing) :
    (∃ fault part bytes, part <+: names ∧ tree.entry? (base ++ part) = some (.file bytes) ∧
      tree.ensureLast here path = (.error fault, tree)) ∨
    ∃ after, tree.ensureLast here path = (.ok (), after) ∧
      after.entry? (base ++ names) = some .directory ∧
      ∀ location, location ≠ base ++ names → after.entry? location = tree.entry? location := by
  cases located : tree.locate here path with
  | error obstacle =>
      have stopped := leads.locate_eq ▸ located
      obtain ⟨part, leading, bytes, file⟩ := exists_file_of_walk leads.plain stopped
        fun missing => unmissed (missing ▸ located)
      exact .inl ⟨_, part, bytes, leading, file, ensureLast_of_stopped located⟩
  | ok location =>
      obtain rfl := leads.eq_of_locate located
      cases found : tree.entry? (base ++ names) with
      | none =>
          have vacant := ne_directory_of_vacant found
          exact .inr ⟨_, ensureLast_of_free located found, entry?_set_self vacant _,
            fun other apart => entry?_set_of_ne vacant apart.symm _⟩
      | some entry =>
          cases entry with
          | directory =>
              exact .inr ⟨tree, ensureLast_of_directory located found, found, fun _ _ => rfl⟩
          | file bytes =>
              exact .inl ⟨_, names, bytes, List.prefix_refl names, found,
                ensureLast_of_file located found⟩

/-- The plain part of a path is made as a whole, or it is not begun because a file is in the way. -/
theorem ensureWithin_cases (leads : Leads tree here path base names) :
    (∃ fault part bytes, part <+: names ∧ tree.entry? (base ++ part) = some (.file bytes) ∧
      tree.ensureWithin here path = (.error fault, tree)) ∨
    ∃ after, tree.ensureWithin here path = (.ok (), after) ∧
      after.entry? (base ++ names) = some .directory ∧
      ∀ location, (∀ part, part <+: names → location ≠ base ++ part) →
        after.entry? location = tree.entry? location := by
  -- From the last name back, as the directories are tried: those above are made only if this one is
  -- missing.
  induction names using List.reverseRecOn generalizing path with
  | nil =>
      have found : tree.entry? (base ++ []) = some .directory := by
        rw [List.append_nil, leads.directory]
      exact .inr ⟨tree, leads.ensureWithin_of_directory found, found, fun _ _ => rfl⟩
  | append_singleton names name ih =>
      by_cases missing : tree.locate here path = .error .missing
      · rw [ensureWithin_of_missing missing]
        have free : tree.entry? (base ++ (names ++ [name])) = none := by
          by_contra present
          exact absurd (missing ▸ leads.locate_of_present present) nofun
        rcases ih leads.parent with
          ⟨fault, part, bytes, leading, file, stopped⟩ | ⟨between, made, directory, same⟩
        · rw [stopped]
          exact .inl ⟨fault, part, bytes, leading.trans (List.prefix_append _ _), file, rfl⟩
        · rw [made]
          have last := leads.locate_last made directory
          have absent : between.entry? (base ++ (names ++ [name])) = none := by
            rw [same _ (append_concat_ne base), free]
          have vacant := ne_directory_of_vacant absent
          refine .inr ⟨_, ensureLast_of_free last absent, entry?_set_self vacant _, ?_⟩
          intro location apart
          rw [entry?_set_of_ne vacant (apart _ (List.prefix_refl _)).symm]
          exact same location fun part leading =>
            apart part (leading.trans (List.prefix_append _ _))
      · rw [ensureWithin_of_unmissed missing]
        refine (leads.ensureLast_cases missing).imp_right ?_
        rintro ⟨after, made, directory, same⟩
        exact ⟨after, made, directory, fun location apart =>
          same location (apart _ (List.prefix_refl _))⟩

/-- A plain path can be written to unless a file is on its way or it leads to a directory; then the
write changes nothing. -/
theorem writeWithin_cases (leads : Leads tree here path base (names ++ [name]))
    (bytes : List UInt8) :
    (∃ fault, tree.writeWithin here path bytes = (.error fault, tree) ∧
      ((∃ part content, part <+: names ∧ tree.entry? (base ++ part) = some (.file content)) ∨
        tree.entry? (base ++ (names ++ [name])) = some .directory)) ∨
    ∃ after, tree.writeWithin here path bytes = (.ok (), after) ∧
      after.entry? (base ++ (names ++ [name])) = some (.file bytes) := by
  by_cases occupied : tree.entry? (base ++ (names ++ [name])) = some .directory
  · have above : tree.entry? (base ++ names) = some .directory := by
      rw [← List.append_assoc] at occupied
      exact leads.closed.above _ (List.cons_ne_nil name []) (occupied ▸ nofun)
    have located := leads.locate_of_present (occupied ▸ nofun)
    refine .inl ⟨.directoryInPlace path.text, ?_, .inr occupied⟩
    rw [writeWithin, leads.parent.ensureWithin_of_directory above]
    simp only [write, located, occupied]
  · rcases leads.parent.ensureWithin_cases with
      ⟨fault, part, content, leading, file, stopped⟩ | ⟨between, made, directory, same⟩
    · refine .inl ⟨fault, ?_, .inl ⟨part, content, leading, file⟩⟩
      rw [writeWithin, stopped]
    · have last := leads.locate_last made directory
      have vacant : between.entry? (base ++ (names ++ [name])) ≠ some .directory := by
        rw [same _ (append_concat_ne base)]
        exact occupied
      refine .inr ⟨between.set (base ++ (names ++ [name])) (.file bytes), ?_,
        entry?_set_self vacant _⟩
      rw [writeWithin, made]
      simp only [write, last]

end Leads

/-! ## Plain paths -/

/-- A path cannot be written to: a file is on its way, or it leads to a directory. -/
def Obstructed (tree : FileTree) (here : Location) (path : FilePath) : Prop :=
  (∃ part content, part <+: path.names ∧ part ≠ path.names ∧
    tree.entry? (path.anchor.start here ++ part) = some (.file content)) ∨
  tree.entry? (path.anchor.start here ++ path.names) = some .directory

/-- Where a path without double dots is written to. -/
theorem Written.eq_of_straight {bytes : List UInt8}
    (written : Written here path bytes location tree after) (straight : ".." ∉ path.names) :
    location = path.anchor.start here ++ path.names :=
  walk_straight straight (walk_of_locate written.located)

/-- A path without double dots that leads somewhere is plain. -/
theorem plain_of_locate (straight : ".." ∉ path.names)
    (located : tree.locate here path = .ok location) : path.Plain := by
  intro name member
  refine ⟨?_, (fits_of_locate located).nulFree name member,
    short_of_walk (walk_of_locate located) name member⟩
  rintro rfl
  exact straight member

/-- A file that has been written was not obstructed. -/
theorem Written.unobstructed {bytes : List UInt8}
    (written : Written here path bytes location tree after) (straight : ".." ∉ path.names)
    (closed : tree.Closed) (standing : tree.entry? here = some .directory) :
    ¬tree.Obstructed here path := by
  have target := written.eq_of_straight straight
  rintro (⟨part, content, leading, proper, file⟩ | directory)
  · -- The file on the way would have become a directory, but a write keeps what it finds.
    obtain ⟨rest, joined⟩ := leading
    have more : rest ≠ [] := by
      rintro rfl
      exact proper (by rw [← joined, List.append_nil])
    rw [← joined, ← List.append_assoc] at target
    have above : after.entry? (path.anchor.start here ++ part) = some .directory := by
      apply (written.closed closed standing).above _ more
      rw [← target, written.file]
      exact nofun
    have apart : path.anchor.start here ++ part ≠ location := by
      rw [target]
      exact fun same => more (List.self_eq_append_right.mp same)
    rw [written.kept _ apart (file ▸ nofun), file] at above
    exact absurd above nofun
  · exact written.vacant (target ▸ directory)

/-- A write to a plain path is obstructed and changes nothing, or it succeeds. -/
theorem writeWithin_of_plain (closed : tree.Closed)
    (standing : tree.entry? here = some .directory) (fits : path.Fits) (plain : path.Plain)
    (bytes : List UInt8) :
    (∃ fault, tree.writeWithin here path bytes = (.error fault, tree) ∧
      tree.Obstructed here path) ∨
    ∃ after, tree.writeWithin here path bytes = (.ok (), after) := by
  have leads := leads_of_plain closed standing fits plain
  cases split : path.names using List.reverseRecOn with
  | nil =>
      rw [split] at leads
      have same : path.parent = path := by
        rw [FilePath.parent, split]
        exact congrArg (FilePath.mk path.anchor) split.symm
      have found : tree.entry? (path.anchor.start here ++ []) = some .directory := by
        rw [List.append_nil, leads.directory]
      have located := leads.locate_of_present (found ▸ nofun)
      refine .inl ⟨.directoryInPlace path.text, ?_, .inr (split ▸ found)⟩
      rw [writeWithin, same, leads.ensureWithin_of_directory found]
      simp only [write, located, found]
  | append_singleton names name =>
      rw [split] at leads
      refine (leads.writeWithin_cases bytes).imp ?_ fun ⟨after, wrote, _⟩ => ⟨after, wrote⟩
      rintro ⟨fault, failed, obstacle⟩
      refine ⟨fault, failed, ?_⟩
      rw [Obstructed, split]
      refine obstacle.imp_left fun ⟨part, content, leading, file⟩ => ?_
      refine ⟨part, content, leading.trans (List.prefix_append _ _), ?_, file⟩
      rintro rfl
      exact not_concat_prefix names name leading

/-- Something at a plain path is found. -/
theorem hasEntry_of_plain (closed : tree.Closed)
    (standing : tree.entry? here = some .directory) (fits : path.Fits) (plain : path.Plain)
    (present : tree.entry? (path.anchor.start here ++ path.names) ≠ none) :
    tree.hasEntry here path = true :=
  hasEntry_of_locate ((leads_of_plain closed standing fits plain).locate_of_present present) present

/-- Where nothing is found, a path without double dots is written to a free place. -/
theorem Written.free {bytes : List UInt8} (written : Written here path bytes location tree after)
    (straight : ".." ∉ path.names) (closed : tree.Closed)
    (standing : tree.entry? here = some .directory) (absent : tree.hasEntry here path = false) :
    tree.entry? location = none := by
  by_contra present
  have found := hasEntry_of_plain closed standing (fits_of_locate written.located)
    (plain_of_locate straight written.located) (written.eq_of_straight straight ▸ present)
  exact absurd (absent.symm.trans found) Bool.false_ne_true

/-! ## Names at the root -/

variable {name : String}

theorem locate_of_name (tree : FileTree) (here : Location) (plain : PlainName name) :
    tree.locate here ⟨.root, [name]⟩ = .ok [name] := by
  have fits : Fits ⟨.root, [name]⟩ := by
    refine ⟨List.forall_mem_singleton.mpr plain.nulFree, ?_⟩
    have short := plain.short
    have slash : Anchor.root.text.utf8ByteSize = 1 := by decide
    simp [text, slash]
    omega
  rw [locate_of_fits fits]
  exact walk_cons_of_plain rfl plain []

theorem at?_of_name (tree : FileTree) (here : Location) (plain : PlainName name) :
    tree.at? here ⟨.root, [name]⟩ = tree.entry? [name] := by
  rw [at?, locate_of_name tree here plain]

/-- A path leads nowhere if its first name does. -/
theorem locate_of_vacant {next : String} {names : List String} (plain : PlainName name)
    (vacant : tree.entry? [name] = none) (fits : Fits ⟨.root, name :: next :: names⟩)
    (here : Location) : tree.locate here ⟨.root, name :: next :: names⟩ = .error .missing := by
  rw [locate_of_fits fits]
  change tree.walk [] (name :: next :: names) = _
  rw [walk_cons_of_plain rfl plain, walk, List.nil_append, vacant]

theorem ensureWithin_of_vacant (plain : PlainName name) (vacant : tree.entry? [name] = none)
    (here : Location) :
    tree.ensureWithin here ⟨.root, [name]⟩ = (.ok (), tree.set [name] .directory) := by
  have located := locate_of_name tree here plain
  rw [ensureWithin_of_unmissed (located ▸ nofun), ensureLast_of_free located vacant]

/-- A path leads into a directory at the root and out of it again. -/
theorem locate_back {names : List String} (plain : PlainName name)
    (directory : tree.entry? [name] = some .directory)
    (fits : Fits ⟨.root, name :: ".." :: names⟩) (here : Location) :
    tree.locate here ⟨.root, name :: ".." :: names⟩ = tree.walk [] names := by
  rw [locate_of_fits fits]
  change tree.walk [] (name :: ".." :: names) = _
  rw [walk_cons_of_plain rfl plain, walk, List.nil_append, directory]
  rfl

/-- A new directory is made by a path that leads back out of it. -/
theorem ensureWithin_back (plain : PlainName name) (vacant : tree.entry? [name] = none)
    (fits : Fits ⟨.root, [name, ".."]⟩) (here : Location) :
    tree.ensureWithin here ⟨.root, [name, ".."]⟩ = (.ok (), tree.set [name] .directory) := by
  have made := entry?_set_self (ne_directory_of_vacant vacant) .directory
  have above : FilePath.parent ⟨.root, [name, ".."]⟩ = ⟨.root, [name]⟩ := rfl
  rw [ensureWithin_of_missing (locate_of_vacant plain vacant fits here), above,
    ensureWithin_of_vacant plain vacant here]
  exact ensureLast_of_directory (locate_back plain made fits here) rfl

/-- The root is not written to, but the new directory on the way has been made. -/
theorem writeWithin_back (plain : PlainName name) (vacant : tree.entry? [name] = none)
    (fits : Fits ⟨.root, [name, ".."]⟩) (here : Location) (bytes : List UInt8) :
    tree.writeWithin here ⟨.root, [name, ".."]⟩ bytes =
      (.error (.directoryInPlace (FilePath.text ⟨.root, [name, ".."]⟩)),
        tree.set [name] .directory) := by
  have made := entry?_set_self (ne_directory_of_vacant vacant) .directory
  have located := locate_back plain made fits here
  have above : FilePath.parent ⟨.root, [name, ".."]⟩ = ⟨.root, [name]⟩ := rfl
  rw [writeWithin, above, ensureWithin_of_vacant plain vacant here]
  simp only [write, located]
  rfl

/-- A file at the root is written to through a new directory. -/
theorem writeWithin_through {last : String} (plain : PlainName name) (plainLast : PlainName last)
    (vacant : tree.entry? [name] = none) (apart : name ≠ last)
    (writable : tree.entry? [last] ≠ some .directory)
    (fits : Fits ⟨.root, [name, "..", last]⟩) (here : Location) (bytes : List UInt8) :
    tree.writeWithin here ⟨.root, [name, "..", last]⟩ bytes =
      (.ok (), (tree.set [name] .directory).set [last] (.file bytes)) := by
  have made := entry?_set_self (ne_directory_of_vacant vacant) .directory
  have located : (tree.set [name] .directory).locate here ⟨.root, [name, "..", last]⟩ =
      .ok [last] := by
    rw [locate_back plain made fits here]
    exact walk_cons_of_plain rfl plainLast []
  have kept : entry? (tree.set [name] .directory) [last] ≠ some .directory := by
    rwa [entry?_set_of_ne (ne_directory_of_vacant vacant) (by simpa using apart)]
  have above : FilePath.parent ⟨.root, [name, "..", last]⟩ = ⟨.root, [name, ".."]⟩ := rfl
  have leading : Fits ⟨.root, [name, ".."]⟩ := fits.of_prefix ⟨[last], rfl⟩
  rw [writeWithin, above, ensureWithin_back plain vacant leading here]
  simp only [write, located]

end FileTree
end DesignTokens
