import DesignTokens.File.Tree
import Mathlib.Data.List.Induction

/-!
# Closed file trees

A file tree is closed if everything in it lies in a directory.  In a closed tree, nothing lies below
a file or below nothing, and plain names, which neither lead back nor are refused by the system, lead
to whatever lies below a directory.
-/

namespace DesignTokens
namespace FileTree

/-! ## Entries -/

theorem find?_assign (entries : List (Location × FileEntry)) (location : Location)
    (entry : FileEntry) (other : Location) :
    find? (assign entries location entry) other =
      if location = other then some entry else find? entries other := by
  induction entries with
  | nil => rfl
  | cons first rest ih =>
      by_cases same : first.1 = location
      · rw [assign, if_pos same, find?, find?, same]
        split <;> rfl
      · rw [assign, if_neg same, find?, find?, ih]
        by_cases found : first.1 = other
        · rw [if_pos found, if_pos found, if_neg fun equal => same (found.trans equal.symm)]
        · rw [if_neg found, if_neg found]

theorem ne_root_of_ne_directory {tree : FileTree} {location : Location}
    (free : tree.entry? location ≠ some .directory) : location ≠ [] := by
  rintro rfl
  exact free rfl

theorem ne_directory_of_vacant {tree : FileTree} {location : Location}
    (vacant : tree.entry? location = none) : tree.entry? location ≠ some .directory := by
  rw [vacant]
  exact nofun

/-- An entry is put where there is no directory, and all other entries stay. -/
theorem entry?_set {tree : FileTree} {location : Location}
    (free : tree.entry? location ≠ some .directory) (entry : FileEntry) (other : Location) :
    entry? (tree.set location entry) other =
      if location = other then some entry else tree.entry? other := by
  cases other with
  | nil => rw [if_neg (ne_root_of_ne_directory free)]; rfl
  | cons name rest => exact find?_assign tree.entries location entry (name :: rest)

theorem entry?_set_self {tree : FileTree} {location : Location}
    (free : tree.entry? location ≠ some .directory) (entry : FileEntry) :
    entry? (tree.set location entry) location = some entry := by
  rw [entry?_set free, if_pos rfl]

theorem entry?_set_of_ne {tree : FileTree} {location other : Location}
    (free : tree.entry? location ≠ some .directory) (apart : location ≠ other)
    (entry : FileEntry) : entry? (tree.set location entry) other = tree.entry? other := by
  rw [entry?_set free, if_neg apart]

/-! ## Closed trees -/

/-- Everything lies in a directory. -/
def Closed (tree : FileTree) : Prop :=
  ∀ location, tree.entry? location ≠ none → tree.entry? location.dropLast = some .directory

theorem Closed.above {tree : FileTree} (closed : tree.Closed) (location : Location)
    {names : List String} (proper : names ≠ [])
    (present : tree.entry? (location ++ names) ≠ none) :
    tree.entry? location = some .directory := by
  induction names using List.reverseRecOn with
  | nil => exact absurd rfl proper
  | append_singleton names name ih =>
      have parent := closed _ present
      rw [← List.append_assoc, List.dropLast_concat] at parent
      cases names with
      | nil => rwa [List.append_nil] at parent
      | cons first rest => exact ih (List.cons_ne_nil first rest) (by simp [parent])

/-- Nothing lies where there is no directory. -/
theorem Closed.below {tree : FileTree} (closed : tree.Closed) {location : Location}
    (free : tree.entry? location ≠ some .directory) {names : List String} (proper : names ≠ []) :
    tree.entry? (location ++ names) = none := by
  by_contra present
  exact free (closed.above location proper present)

theorem Closed.set {tree : FileTree} (closed : tree.Closed) {location : Location}
    (parent : tree.entry? location.dropLast = some .directory)
    (free : tree.entry? location ≠ some .directory) (entry : FileEntry) :
    (tree.set location entry).Closed := by
  intro other present
  have kept : ∀ above, tree.entry? above = some .directory →
      entry? (tree.set location entry) above = some .directory := by
    intro above directory
    have other : location ≠ above := fun same => free (by rw [same]; exact directory)
    rw [entry?_set_of_ne free other, directory]
  apply kept
  rw [entry?_set free] at present
  split at present
  · rename_i same
    rw [← same, parent]
  · exact closed other present

/-- In a closed tree, names lead from a directory to something in a directory. -/
theorem Closed.walk {tree : FileTree} (closed : tree.Closed) {names : List String}
    {start location : Location} (parent : tree.entry? start.dropLast = some .directory)
    (reached : tree.walk start names = .ok location) :
    tree.entry? location.dropLast = some .directory := by
  induction names generalizing start with
  | nil => rwa [← Except.ok.inj reached]
  | cons name names ih =>
      rw [FileTree.walk] at reached
      split at reached
      · exact absurd reached nofun
      · exact absurd reached nofun
      · rename_i directory
        split at reached
        · exact absurd reached nofun
        · refine ih ?_ reached
          split
          · exact closed _ (by simp [parent])
          · rw [List.dropLast_concat, directory]

/-! ## Following names -/

theorem walk_append (tree : FileTree) (start : Location) (front names : List String) :
    tree.walk start (front ++ names) =
      (tree.walk start front).bind fun location => tree.walk location names := by
  induction front generalizing start with
  | nil => rfl
  | cons name front ih =>
      rw [List.cons_append, FileTree.walk, FileTree.walk]
      cases tree.entry? start with
      | none => rfl
      | some entry =>
          cases entry with
          | file bytes => rfl
          | directory =>
              dsimp only
              split
              · rfl
              · exact ih _

/-- What leads somewhere still leads there when all directories are kept. -/
theorem walk_mono {tree after : FileTree}
    (kept : ∀ location, tree.entry? location = some .directory →
      after.entry? location = some .directory) {names : List String} {start location : Location}
    (reached : tree.walk start names = .ok location) : after.walk start names = .ok location := by
  induction names generalizing start with
  | nil => exact reached
  | cons name names ih =>
      rw [FileTree.walk] at reached ⊢
      cases found : tree.entry? start with
      | none => exact absurd (found ▸ reached) nofun
      | some entry =>
          cases entry with
          | file bytes => exact absurd (found ▸ reached) nofun
          | directory =>
              rw [found] at reached
              rw [kept start found]
              dsimp only at reached ⊢
              split at reached
              · exact absurd reached nofun
              · rename_i short
                rw [if_neg short]
                exact ih reached

/-- Without double dots, names lead below. -/
theorem walk_straight {tree : FileTree} {names : List String} (straight : ".." ∉ names)
    {start location : Location} (reached : tree.walk start names = .ok location) :
    location = start ++ names := by
  induction names generalizing start with
  | nil => rw [← Except.ok.inj reached, List.append_nil]
  | cons name names ih =>
      rw [List.mem_cons, not_or] at straight
      rw [FileTree.walk] at reached
      split at reached
      · exact absurd reached nofun
      · exact absurd reached nofun
      · split at reached
        · exact absurd reached nofun
        · rw [if_neg (Ne.symm straight.1)] at reached
          rw [ih straight.2 reached, List.append_assoc, List.singleton_append]

/-- Names that lead somewhere are short. -/
theorem short_of_walk {tree : FileTree} {names : List String} {start location : Location}
    (reached : tree.walk start names = .ok location) :
    ∀ name ∈ names, name.utf8ByteSize ≤ 255 := by
  induction names generalizing start with
  | nil => exact fun name member => absurd member List.not_mem_nil
  | cons name names ih =>
      rw [FileTree.walk] at reached
      split at reached
      · exact absurd reached nofun
      · exact absurd reached nofun
      · split at reached
        · exact absurd reached nofun
        · rename_i short
          exact List.forall_mem_cons.mpr ⟨Nat.not_lt.mp short, ih reached⟩

/-- Short names are stopped for another reason than their length. -/
theorem walk_ne_long {tree : FileTree} {names : List String}
    (short : ∀ name ∈ names, name.utf8ByteSize ≤ 255) (start : Location) :
    tree.walk start names ≠ .error .long := by
  induction names generalizing start with
  | nil => exact nofun
  | cons name names ih =>
      obtain ⟨first, others⟩ := List.forall_mem_cons.mp short
      rw [FileTree.walk]
      split
      · exact nofun
      · exact nofun
      · rw [if_neg (Nat.not_lt.mpr first)]
        exact ih others _

/-! ## Looking -/

theorem look_of_long {tree : FileTree} {here : Location} {path : FilePath}
    (long : tree.locate here path = .error .long) :
    tree.look here path = .error (.longPath path.text) := by
  rw [look, long]
  rfl

theorem look_of_ne_long {tree : FileTree} {here : Location} {path : FilePath}
    (short : tree.locate here path ≠ .error .long) : tree.look here path = .ok () := by
  unfold look
  split
  · rename_i long
    exact absurd long short
  · rfl

theorem look_of_located {tree : FileTree} {here location : Location} {path : FilePath}
    (located : tree.locate here path = .ok location) : tree.look here path = .ok () := by
  rw [look, located]

/-- What exists can be looked for. -/
theorem look_of_hasEntry {tree : FileTree} {here : Location} {path : FilePath}
    (present : tree.hasEntry here path = true) : tree.look here path = .ok () := by
  apply look_of_ne_long
  intro long
  rw [hasEntry, at?, long] at present
  exact absurd present nofun

/-- Something at the location that a path leads to is found. -/
theorem hasEntry_of_locate {tree : FileTree} {here location : Location} {path : FilePath}
    (located : tree.locate here path = .ok location) (present : tree.entry? location ≠ none) :
    tree.hasEntry here path = true := by
  rw [hasEntry, at?, located]
  exact Option.isSome_iff_ne_none.mpr present

theorem hasEntry_of_missing {tree : FileTree} {here : Location} {path : FilePath}
    (missing : tree.locate here path = .error .missing) : tree.hasEntry here path = false := by
  rw [hasEntry, at?, missing]
  rfl

theorem locate_ne_long_of_bytes? {tree : FileTree} {here : Location} {path : FilePath}
    {bytes : List UInt8} (found : tree.bytes? here path = some bytes) :
    tree.locate here path ≠ .error .long := by
  intro long
  rw [bytes?, at?, long] at found
  exact absurd found nofun

end FileTree

/-! ## Paths from the root -/

namespace FilePath

theorem not_mem_collapse {reversed : List String} (straight : ".." ∉ reversed)
    (names : List String) : ".." ∉ collapse reversed names := by
  fun_induction collapse reversed names with
  | case1 reversed => simpa using straight
  | case2 reversed names ih => exact ih fun member => straight (List.mem_of_mem_drop member)
  | case3 reversed name names crooked ih =>
      exact ih (List.not_mem_cons_of_ne_of_not_mem (Ne.symm crooked) straight)

theorem not_mem_absolute (base path : FilePath) : ".." ∉ (absolute base path).names :=
  not_mem_collapse List.not_mem_nil _

end FilePath

/-! ## Plain names -/

namespace FilePath

/-- A name is neither double dots nor refused by the system. -/
structure PlainName (name : String) : Prop where
  straight : name ≠ ".."
  nulFree : name.contains '\x00' = false
  short : name.utf8ByteSize ≤ 255

/-- All names of a path are plain. -/
def Plain (path : FilePath) : Prop := ∀ name ∈ path.names, PlainName name

theorem not_mem_of_plain {names : List String} (plain : ∀ name ∈ names, PlainName name) :
    ".." ∉ names :=
  fun member => (plain _ member).straight rfl

end FilePath

namespace FileTree

open FilePath

theorem walk_cons_of_plain {tree : FileTree} {location : Location}
    (directory : tree.entry? location = some .directory) {name : String} (plain : PlainName name)
    (names : List String) :
    tree.walk location (name :: names) = tree.walk (location ++ [name]) names := by
  rw [FileTree.walk, directory]
  dsimp only
  rw [if_neg (Nat.not_lt.mpr plain.short), if_neg plain.straight]

/-- In a closed tree, plain names lead to whatever lies below their start. -/
theorem Closed.walk_of_present {tree : FileTree} (closed : tree.Closed) {names : List String}
    (plain : ∀ name ∈ names, PlainName name) {start : Location}
    (present : tree.entry? (start ++ names) ≠ none) :
    tree.walk start names = .ok (start ++ names) := by
  induction names generalizing start with
  | nil => rw [List.append_nil]; rfl
  | cons name names ih =>
      obtain ⟨first, others⟩ := List.forall_mem_cons.mp plain
      have directory := closed.above start (List.cons_ne_nil name names) present
      rw [List.append_cons] at present ⊢
      rw [walk_cons_of_plain directory first, ih others present]

/-- Plain names lead to a directory and one name beyond it. -/
theorem Closed.walk_of_directory {tree : FileTree} (closed : tree.Closed) {names : List String}
    (plain : ∀ name ∈ names, PlainName name) {start : Location}
    (directory : tree.entry? (start ++ names) = some .directory) {name : String}
    (last : PlainName name) :
    tree.walk start (names ++ [name]) = .ok (start ++ names ++ [name]) := by
  rw [walk_append, closed.walk_of_present plain (directory ▸ nofun)]
  exact walk_cons_of_plain directory last []

/-- Plain names that lead nowhere, though nothing is missing, are stopped by a file. -/
theorem exists_file_of_walk {tree : FileTree} {names : List String}
    (plain : ∀ name ∈ names, PlainName name) {start : Location} {obstacle : Obstacle}
    (stopped : tree.walk start names = .error obstacle) (unmissed : obstacle ≠ .missing) :
    ∃ part, part <+: names ∧ ∃ bytes, tree.entry? (start ++ part) = some (.file bytes) := by
  induction names generalizing start with
  | nil => exact absurd stopped nofun
  | cons name names ih =>
      obtain ⟨first, others⟩ := List.forall_mem_cons.mp plain
      cases found : tree.entry? start with
      | none =>
          rw [FileTree.walk, found] at stopped
          exact absurd (Except.error.inj stopped).symm unmissed
      | some entry =>
          cases entry with
          | file bytes => exact ⟨[], List.nil_prefix, bytes, by rw [List.append_nil, found]⟩
          | directory =>
              rw [walk_cons_of_plain found first] at stopped
              obtain ⟨part, leading, bytes, file⟩ := ih others stopped
              refine ⟨name :: part, List.cons_prefix_cons.mpr ⟨rfl, leading⟩, bytes, ?_⟩
              rw [List.append_cons, file]

end FileTree
end DesignTokens
