import DesignTokens.Proofs.File.Writing
import DesignTokens.Proofs.Generation.Outcome

/-!
# Validation predicts generation

The system takes a file at a path if the directories above can be made and then no directory is in
its place.  It does so if the nearest existing ancestor is a directory and the names below that are
plain, but also beyond double dots that lead out of a new directory to a place for a file.  Where an
output that does not exist is taken, generation fails only where validation does, and in the same
way; where it is not taken, nothing is generated.
-/

namespace DesignTokens

/-! ## Paths where a file can be written -/

namespace FileTree

variable {files : FileTree} {here : Location} {path : FilePath}

/-- The directories above a path can be made, and then no directory is in its place. -/
def Takes (files : FileTree) (here : Location) (path : FilePath) : Prop :=
  ∃ between location, files.ensureWithin here path.parent = (.ok (), between) ∧
    between.locate here path = .ok location ∧ between.entry? location ≠ some .directory

theorem takes_of_writeWithin {bytes : List UInt8} {after : FileTree}
    (wrote : files.writeWithin here path bytes = (.ok (), after)) : files.Takes here path := by
  obtain ⟨between, location, made, located, vacant, -⟩ := exists_steps_of_writeWithin wrote
  exact ⟨between, location, made, located, vacant⟩

namespace Takes

theorem exists_writeWithin (takes : files.Takes here path) (bytes : List UInt8) :
    ∃ after, files.writeWithin here path bytes = (.ok (), after) ∧
      after.bytes? here path = some bytes := by
  obtain ⟨between, location, made, located, vacant⟩ := takes
  have wrote : files.writeWithin here path bytes =
      (.ok (), between.set location (.file bytes)) := by
    rw [writeWithin, made]
    simp only [write, located]
  obtain ⟨_, written⟩ := exists_written_of_writeWithin wrote
  exact ⟨_, wrote, written.bytes?⟩

/-- A path that is taken is short enough to be looked for. -/
theorem look (takes : files.Takes here path) : files.look here path = .ok () := by
  obtain ⟨between, location, -, located, -⟩ := takes
  apply look_of_ne_long
  rw [locate_of_fits (fits_of_locate located)]
  exact walk_ne_long (short_of_walk (walk_of_locate located)) _

end Takes
end FileTree

/-! ## The nearest existing ancestor -/

namespace FileTree

open FilePath

variable {files : FileTree} {here : Location} {path : FilePath} {front rest : List String}

/-- A path leads to nothing, and the nearest of its ancestors that exists is a directory: the names
in `front` lead to it, and the names in `rest` on from it. -/
structure NearestDirectory (files : FileTree) (here : Location) (path : FilePath)
    (front rest : List String) : Prop where
  names : path.names = front ++ rest
  absent : files.hasEntry here path = false
  directory : files.isDirectory here { path with names := front } = true
  beyond : ∀ part, part <+: rest → part ≠ [] →
    files.hasEntry here { path with names := front ++ part } = false

namespace NearestDirectory

theorem exists_leads (nearest : NearestDirectory files here path front rest)
    (closed : files.Closed) (standing : files.entry? here = some .directory)
    (plain : ∀ name ∈ rest, PlainName name) (short : path.text.utf8ByteSize < 4096) :
    ∃ base, Leads files here path base rest ∧
      ∀ part, part <+: rest → part ≠ [] → files.entry? (base ++ part) = none := by
  have found := nearest.directory
  unfold isDirectory at? at found
  split at found
  · rename_i base located
    have directory := of_decide_eq_true found
    -- Every path between the directory and the whole path leads on from the directory, so what is
    -- not found by such a path is not there.
    have leads : ∀ part, part <+: rest →
        Leads files here { path with names := front ++ part } base part := by
      intro part leading
      have all : Fits path := by
        refine ⟨?_, short⟩
        rw [nearest.names, List.forall_mem_append]
        exact ⟨(fits_of_locate located).nulFree, fun name member => (plain name member).nulFree⟩
      refine ⟨closed, standing, all.of_prefix ?_, ⟨front, rfl, walk_of_locate located⟩, directory,
        fun name member => plain name (leading.subset member)⟩
      rw [nearest.names]
      exact (List.prefix_append_right_inj front).mpr leading
    refine ⟨base, ?_, ?_⟩
    · have whole := leads rest (List.prefix_refl rest)
      rwa [← nearest.names] at whole
    · intro part leading proper
      by_contra present
      have found := hasEntry_of_locate ((leads part leading).locate_of_present present) present
      exact absurd ((nearest.beyond part leading proper).symm.trans found) Bool.false_ne_true
  · exact absurd found nofun

/-- The root is nearest to a path whose first name leads nowhere. -/
theorem of_vacant {first second : String} {names : List String} (plain : PlainName first)
    (vacant : files.entry? [first] = none) (fits : Fits ⟨.root, first :: second :: names⟩) :
    NearestDirectory files here ⟨.root, first :: second :: names⟩ []
      (first :: second :: names) := by
  refine ⟨rfl, hasEntry_of_missing (locate_of_vacant plain vacant fits here), rfl, ?_⟩
  intro part leading proper
  obtain ⟨_, rfl, more⟩ := (List.prefix_cons_iff.mp leading).resolve_left proper
  rcases List.prefix_cons_iff.mp more with rfl | ⟨_, rfl, -⟩
  · change files.hasEntry here ⟨.root, [first]⟩ = false
    rw [hasEntry, at?_of_name files here plain, vacant]
    rfl
  · exact hasEntry_of_missing (locate_of_vacant plain vacant (fits.of_prefix leading) here)

/-- A file can be written at such a path if the names below the directory are plain. -/
theorem takes (nearest : NearestDirectory files here path front rest)
    (closed : files.Closed) (standing : files.entry? here = some .directory)
    (plain : ∀ name ∈ rest, PlainName name) (short : path.text.utf8ByteSize < 4096) :
    files.Takes here path := by
  obtain ⟨base, leads, free⟩ := nearest.exists_leads closed standing plain short
  obtain rfl | ⟨names, name, rfl⟩ := rest.eq_nil_or_concat'
  · have present : files.entry? (base ++ []) ≠ none := by
      rw [List.append_nil, leads.directory]
      exact Option.some_ne_none _
    have found := hasEntry_of_locate (leads.locate_of_present present) present
    exact absurd (nearest.absent.symm.trans found) Bool.false_ne_true
  · rcases leads.writeWithin_cases [] with ⟨fault, -, obstacle⟩ | ⟨after, wrote, -⟩
    · rcases obstacle with ⟨part, content, leading, file⟩ | directory
      · by_cases proper : part = []
        · rw [proper, List.append_nil, leads.directory] at file
          exact absurd file nofun
        · rw [free part (leading.trans (List.prefix_append _ _)) proper] at file
          exact absurd file nofun
      · rw [free _ (List.prefix_refl _) (by simp)] at directory
        exact absurd directory nofun
    · exact takes_of_writeWithin wrote

end NearestDirectory
end FileTree

/-! ## Validation and generation -/

namespace Document

/-- Reading a document never ends with a structural defect. -/
theorem inFile_ne_invalidTokenStructure (input : FilePath) (files : FileTree) (here : Location)
    (path : TokenPath) (reason : String) :
    inFile input files here ≠ .error (.failure (.invalidTokenStructure path reason)) := by
  intro ended
  cases inFile_eq_error_iff.mp ended with
  | refuted _ _ refuted => exact absurd refuted nofun

end Document

/-- Validating a document never ends with a structural defect as a fault. -/
theorem Verdict.inFile_ne_invalidTokenStructure (input : FilePath) (files : FileTree)
    (here : Location) (path : TokenPath) (reason : String) :
    inFile input files here ≠ .error (.failure (.invalidTokenStructure path reason)) := by
  unfold inFile
  cases found : Document.inFile input files here with
  | error fault =>
      rintro ended
      obtain rfl := Except.error.inj ended
      exact Document.inFile_ne_invalidTokenStructure input files here path reason found
  | ok document =>
      simp only [Except.bind]
      unfold Validation.verdict
      split <;> exact nofun

namespace Generation

/-- A call whose output does not exist and is taken ends as the theme of its document does. -/
theorem Call.run_of_takes (call : Call) (world : World)
    (absent : world.files.hasEntry world.here call.output = false)
    (takes : world.files.Takes world.here call.output) :
    (∀ fault, call.theme world.files world.here = .error fault →
      (call.run world).1 = .error fault) ∧
    ∀ theme, call.theme world.files world.here = .ok theme →
      ∃ after, call.run world = (.ok (call.generation theme), after) ∧
        after.files.bytes? after.here call.output = some (call.bytes theme) := by
  have admitted := Call.admitted_of_absent takes.look absent
  constructor
  · intro fault unmade
    obtain ⟨later, ended⟩ := (Call.Comes.unmade admitted unmade).exists_run
    rw [ended]
  · intro theme made
    obtain ⟨after, wrote, bytes⟩ := takes.exists_writeWithin (call.bytes theme)
    obtain ⟨later, ended⟩ := (Call.Comes.written admitted made wrote).exists_run
    exact ⟨_, ended, bytes⟩

/-- A call succeeds only if its output is taken. -/
theorem Call.takes_of_run (call : Call) (world : World) {generation : Generation}
    (succeeded : (call.run world).1 = .ok generation) :
    world.files.Takes world.here call.output := by
  obtain ⟨outcome, after, later, ran, comes⟩ := call.exists_run world
  rw [ran] at succeeded
  obtain rfl : outcome = .ok generation := succeeded
  cases comes with
  | written _ _ written => exact FileTree.takes_of_writeWithin written

theorem compile_gives (settings : Settings) (source sourceName : String) {text : String}
    {document : Document} (read : Document.ofText source text = .ok document)
    (valid : Validation.verdict (.object document) = .ok .valid) :
    (compile settings source sourceName text).Gives
      (Preset.text settings (Theme.ofWalks settings document) sourceName) := by
  intro journal
  have themed := themeOf_gives settings valid journal
  have opened : (ExceptT.mk (pure (Document.ofText source text)) : Journaled Document) journal =
      (.ok document, journal) := congrArg (·, journal) read
  rw [compile, Journaled.bind_of_ok opened, Journaled.bind_of_ok (Prod.ext themed rfl)]
  rfl

/-- The validation of a document predicts how a call ends, and what it writes. -/
structure Call.Predicted (call : Call) (world : World) : Prop where
  valid : (validateFile call.input world).1 = .ok .valid ↔
    ∃ generation, (call.run world).1 = .ok generation
  written : ∀ generation after, call.run world = (.ok generation, after) →
    ∃ document, Document.inFile call.input world.files world.here = .ok document ∧
      generation = call.generation (Theme.ofWalks call.settings document) ∧
      after.files.bytes? after.here call.output = some (Text.Utf8.encode generation.content)
  invalid : ∀ path reason, (validateFile call.input world).1 = .ok (.invalid path reason) ↔
    (call.run world).1 = .error (.failure (.invalidTokenStructure path reason))
  failed : ∀ fault, (validateFile call.input world).1 = .error fault ↔
    (call.run world).1 = .error fault ∧
      ∀ path reason, fault ≠ .failure (.invalidTokenStructure path reason)

theorem Call.predicted_of_takes (call : Call) (world : World)
    (absent : world.files.hasEntry world.here call.output = false)
    (takes : world.files.Takes world.here call.output) : call.Predicted world := by
  obtain ⟨unmade, made⟩ := call.run_of_takes world absent takes
  have judged : (validateFile call.input world).1 =
      Verdict.inFile call.input world.files world.here := by
    obtain ⟨later, ended⟩ := exists_validateFile_eq call.input world
    rw [ended]
  rcases Theme.inFile_cases call.settings call.input world.files world.here with
    ⟨fault, verdict, theme⟩ | ⟨path, reason, verdict, theme⟩ | ⟨document, read, verdict, theme⟩
  · have ended := unmade fault theme
    have other : ∀ path reason, fault ≠ .failure (.invalidTokenStructure path reason) := by
      rintro path reason rfl
      exact Verdict.inFile_ne_invalidTokenStructure _ _ _ path reason verdict
    refine ⟨?_, ?_, ?_, ?_⟩
    · simp [judged, verdict, ended]
    · intro generation after succeeded
      exact absurd (ended.symm.trans (congrArg Prod.fst succeeded)) nofun
    · simp [judged, verdict, ended, other]
    · simp only [judged, verdict, ended, Except.error.injEq]
      exact fun other' => ⟨fun same => ⟨same, same ▸ other⟩, And.left⟩
  · have ended := unmade _ theme
    refine ⟨?_, ?_, ?_, ?_⟩
    · simp [judged, verdict, ended]
    · intro generation after succeeded
      exact absurd (ended.symm.trans (congrArg Prod.fst succeeded)) nofun
    · simp [judged, verdict, ended]
    · simp [judged, verdict, ended]
  · obtain ⟨after, ended, written⟩ := made _ theme
    refine ⟨?_, ?_, ?_, ?_⟩
    · simp [judged, verdict, ended]
    · intro generation last succeeded
      obtain ⟨same, rfl⟩ := Prod.mk.inj (ended.symm.trans succeeded)
      obtain rfl := Except.ok.inj same
      exact ⟨document, read, rfl, written⟩
    · simp [judged, verdict, ended]
    · simp [judged, verdict, ended]

end Generation
end DesignTokens
