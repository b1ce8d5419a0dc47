import DesignTokens.Generation
import DesignTokens.Proofs.Document
import DesignTokens.Proofs.Theme
import DesignTokens.Proofs.Validation.FirstAnomaly
import DesignTokens.Proofs.World

/-!
# Outcomes of the stages

What is read of a document is decided by the files and the working directory, and so is what a
generation comes to: its outcome and the files that it leaves do not depend on the journal.  Every
document that is valid has a theme and a module.
-/

namespace DesignTokens

/-! ## Reading -/

namespace Verdict

/-- The verdict on the document in a file of a tree. -/
def inFile (input : FilePath) (files : FileTree) (here : Location) : Except Fault Verdict :=
  (Document.inFile input files here).bind fun document => Validation.verdict (.object document)

end Verdict

namespace Theme

/-- The theme that the walks over a document make. -/
def ofWalks (settings : Settings) (document : Document) : Theme where
  primitive := (walk settings document .primitive).value
  semantic := (walk settings document .semantic).value
  light := (walk settings document .light).value
  dark := (walk settings document .dark).value

theorem gives_ofWalks (settings : Settings) (document : Document) :
    (ofDocument settings document).Gives (ofWalks settings document) := by
  obtain ⟨theme, gives, trees⟩ := exists_ofDocument settings document
  have same : theme = ofWalks settings document := by
    obtain ⟨primitive, semantic, light, dark⟩ := theme
    rw [ofWalks, Theme.mk.injEq]
    exact ⟨trees .primitive, trees .semantic, trees .light, trees .dark⟩
  exact same ▸ gives

/-- The theme of a document that must be valid. -/
def ofValid (settings : Settings) (document : Document) : Except Fault Theme :=
  (Validation.verdict (.object document)).bind fun verdict =>
    match verdict.failure? with
    | some failure => .error (.failure failure)
    | none => .ok (ofWalks settings document)

/-- The theme of the document in a file of a tree. -/
def inFile (settings : Settings) (input : FilePath) (files : FileTree) (here : Location) :
    Except Fault Theme :=
  (Document.inFile input files here).bind (ofValid settings)

/-- A document in a file has a theme if it is valid; otherwise making the theme ends as the
validation does, or with the defect that the validation finds. -/
theorem inFile_cases (settings : Settings) (input : FilePath) (files : FileTree)
    (here : Location) :
    (∃ fault, Verdict.inFile input files here = .error fault ∧
      inFile settings input files here = .error fault) ∨
    (∃ path reason, Verdict.inFile input files here = .ok (.invalid path reason) ∧
      inFile settings input files here =
        .error (.failure (.invalidTokenStructure path reason))) ∨
    ∃ document, Document.inFile input files here = .ok document ∧
      Verdict.inFile input files here = .ok .valid ∧
      inFile settings input files here = .ok (ofWalks settings document) := by
  unfold Verdict.inFile inFile
  cases found : Document.inFile input files here with
  | error fault => exact .inl ⟨fault, rfl, rfl⟩
  | ok document =>
      simp only [Except.bind, ofValid]
      cases Validation.verdict (.object document) with
      | error fault => exact .inl ⟨fault, rfl, rfl⟩
      | ok verdict =>
          cases verdict with
          | invalid path reason => exact .inr (.inl ⟨path, reason, rfl, rfl⟩)
          | valid => exact .inr (.inr ⟨document, rfl, rfl, rfl⟩)

theorem exists_inFile_of_valid (settings : Settings) {input : FilePath} {files : FileTree}
    {here : Location} (valid : Verdict.inFile input files here = .ok .valid) :
    ∃ theme, inFile settings input files here = .ok theme := by
  rcases inFile_cases settings input files here with
    ⟨fault, verdict, -⟩ | ⟨path, reason, verdict, -⟩ | ⟨document, -, -, theme⟩
  · exact absurd (valid.symm.trans verdict) nofun
  · exact absurd (valid.symm.trans verdict) nofun
  · exact ⟨_, theme⟩

end Theme

namespace Generation

theorem fst_validate (value : Json) (journal : Journal) :
    (validate value journal).1 = Validation.verdict value := by
  cases judged : Validation.verdict value with
  | ok verdict => rw [validate_of_ok judged]
  | error fault => rw [validate_of_error judged]

theorem fst_themeOf (settings : Settings) (document : Document) (journal : Journal) :
    (themeOf settings document journal).1 = Theme.ofValid settings document := by
  have judged := fst_validate (.object document) journal
  rw [themeOf, Theme.ofValid]
  cases outcome : Validation.verdict (.object document) with
  | error fault =>
      rw [outcome] at judged
      rw [Journaled.bind_of_error (Prod.ext judged rfl)]
      rfl
  | ok verdict =>
      rw [outcome] at judged
      rw [Journaled.bind_of_ok (Prod.ext judged rfl)]
      cases verdict with
      | valid => exact Theme.gives_ofWalks settings document _
      | invalid path reason => rfl

theorem themeOf_gives (settings : Settings) {document : Document}
    (valid : Validation.verdict (.object document) = .ok .valid) :
    (themeOf settings document).Gives (Theme.ofWalks settings document) := by
  intro journal
  rw [fst_themeOf, Theme.ofValid, valid]
  rfl

theorem reads_document (input : FilePath) :
    (readDocument input).Reads (Document.inFile input) := by
  refine ((Program.reads_bytes? input).bind
    (?_ : ∀ found, Program.Reads _ fun _ _ => Document.ofFound input found)).congr ?_
  · rintro (_ | bytes)
    · exact .fail _
    · exact .ofExcept _
  · intro files here
    rw [Document.inFile]
    cases files.look here input <;> rfl

theorem reads_validateFile (input : FilePath) :
    (validateFile input).Reads (Verdict.inFile input) :=
  (reads_document input).bind fun document => .ofJournaled (fst_validate (.object document))

theorem reads_themeOfFile (settings : Settings) (input : FilePath) :
    (themeOfFile settings input).Reads (Theme.inFile settings input) :=
  (reads_document input).bind fun document => .ofJournaled (fst_themeOf settings document)

theorem exists_validateFile_eq (input : FilePath) (world : World) :
    ∃ later, validateFile input world =
      (Verdict.inFile input world.files world.here, { world with journal := later }) :=
  reads_validateFile input world.files world.here world.journal

theorem exists_themeOfFile_eq (settings : Settings) (input : FilePath) (world : World) :
    ∃ later, themeOfFile settings input world =
      (Theme.inFile settings input world.files world.here, { world with journal := later }) :=
  reads_themeOfFile settings input world.files world.here world.journal

/-- A world with an empty document. -/
def emptyDocument : World := .sole "t.json" [0x7B, 0x7D]

theorem inFile_emptyDocument :
    Verdict.inFile ⟨.root, ["t.json"]⟩ emptyDocument.files emptyDocument.here = .ok .valid := by
  have held : emptyDocument.files.bytes? emptyDocument.here ⟨.root, ["t.json"]⟩ =
      some [0x7B, 0x7D] :=
    World.bytes?_sole ⟨by decide, by simp, by decide⟩ _ _
  rw [Verdict.inFile, Document.inFile_of_found held]
  rfl

theorem fst_validateFile_emptyDocument :
    (validateFile ⟨.root, ["t.json"]⟩ emptyDocument).1 = .ok .valid := by
  obtain ⟨later, ended⟩ := exists_validateFile_eq ⟨.root, ["t.json"]⟩ emptyDocument
  rw [ended, inFile_emptyDocument]

/-! ## Writing -/

/-- A call of the generator. -/
structure Call where
  /-- The settings of the module. -/
  settings : Settings
  /-- The document. -/
  input : FilePath
  /-- The module file. -/
  output : FilePath
  /-- Whether a module file that exists is overwritten. -/
  force : Bool

namespace Call

/-- A call with paths from the root that does not ask for overwriting. -/
def fromRoot (settings : Settings) (input output : List String) : Call :=
  ⟨settings, ⟨.root, input⟩, ⟨.root, output⟩, false⟩

/-- Generate the module. -/
def run (call : Call) : Program Generation :=
  generate call.settings call.input call.output call.force

/-- The generation that a theme amounts to. -/
def generation (call : Call) (theme : Theme) : Generation where
  input := call.input
  output := call.output
  theme := theme
  content := Preset.text call.settings theme call.input.name

/-- The bytes of the module for a theme. -/
def bytes (call : Call) (theme : Theme) : List UInt8 :=
  Text.Utf8.encode (call.generation theme).content

/-- The theme of the document that a call names. -/
def theme (call : Call) (files : FileTree) (here : Location) : Except Fault Theme :=
  Theme.inFile call.settings call.input files here

/-- The output can be looked for, and there is nothing or what is there is to be overwritten. -/
structure Admitted (call : Call) (files : FileTree) (here : Location) : Prop where
  looked : files.look here call.output = .ok ()
  asked : files.hasEntry here call.output = true → call.force = true

theorem admitted_of_absent {call : Call} {files : FileTree} {here : Location}
    (looked : files.look here call.output = .ok ())
    (absent : files.hasEntry here call.output = false) : call.Admitted files here :=
  ⟨looked, fun present => absurd (absent.symm.trans present) Bool.false_ne_true⟩

/-- What a call comes to, and the files that it leaves. -/
inductive Comes (call : Call) (files : FileTree) (here : Location) :
    Except Fault Generation → FileTree → Prop
  /-- The output cannot be looked for. -/
  | unseen {fault : Fault} (unseen : files.look here call.output = .error fault) :
      Comes call files here (.error fault) files
  /-- The output exists and is not to be overwritten. -/
  | refused (looked : files.look here call.output = .ok ())
      (present : files.hasEntry here call.output = true) (unforced : call.force = false) :
      Comes call files here (.error (.failure (.outputExists call.output.text))) files
  /-- The document has no theme. -/
  | unmade {fault : Fault} (admitted : call.Admitted files here)
      (unmade : call.theme files here = .error fault) : Comes call files here (.error fault) files
  /-- The module is not written. -/
  | unwritten {theme : Theme} {fault : Fault} {after : FileTree}
      (admitted : call.Admitted files here) (made : call.theme files here = .ok theme)
      (unwritten : files.writeWithin here call.output (call.bytes theme) = (.error fault, after)) :
      Comes call files here (.error fault) after
  /-- The module is written. -/
  | written {theme : Theme} {after : FileTree} (admitted : call.Admitted files here)
      (made : call.theme files here = .ok theme)
      (written : files.writeWithin here call.output (call.bytes theme) = (.ok (), after)) :
      Comes call files here (.ok (call.generation theme)) after

variable {call : Call} {world : World}

theorem run_of_unseen {fault : Fault}
    (unseen : world.files.look world.here call.output = .error fault) :
    call.run world = (.error fault, world) :=
  Program.bind_of_error (Program.hasEntry_of_unseen unseen) _

/-- An output that exists is refused before anything else is looked at. -/
theorem run_of_present (looked : world.files.look world.here call.output = .ok ())
    (present : world.files.hasEntry world.here call.output = true) (unforced : call.force = false) :
    call.run world = (.error (.failure (.outputExists call.output.text)), world) := by
  rw [run, generate, Program.bind_of_ok (Program.hasEntry_of_looked looked), present, unforced]
  rfl

theorem run_of_admitted (admitted : call.Admitted world.files world.here) :
    call.run world = Program.within [("input_file", .str call.input.text)]
      (write call.settings call.input call.output) world := by
  rw [run, generate, Program.bind_of_ok (Program.hasEntry_of_looked admitted.looked), if_neg]
  rw [Bool.and_eq_true, Bool.not_eq_true', not_and, Bool.not_eq_false]
  exact admitted.asked

variable {files after : FileTree} {here : Location}

theorem theme_leaves {outcome : Except Fault Theme} (decided : call.theme files here = outcome) :
    (themeOfFile call.settings call.input).Leaves files here outcome files :=
  decided ▸ reads_themeOfFile call.settings call.input files here

theorem write_leaves_of_unmade {fault : Fault} (unmade : call.theme files here = .error fault) :
    (write call.settings call.input call.output).Leaves files here (.error fault) files :=
  (theme_leaves unmade).bind_of_error _

theorem write_leaves_of_unwritten {theme : Theme} {fault : Fault}
    (made : call.theme files here = .ok theme)
    (unwritten : files.writeWithin here call.output (call.bytes theme) = (.error fault, after)) :
    (write call.settings call.input call.output).Leaves files here (.error fault) after :=
  (theme_leaves made).bind_of_ok ((Program.write_leaves unwritten).bind_of_error _)

theorem write_leaves_of_written {theme : Theme} (made : call.theme files here = .ok theme)
    (written : files.writeWithin here call.output (call.bytes theme) = (.ok (), after)) :
    (write call.settings call.input call.output).Leaves files here (.ok (call.generation theme))
      after := by
  apply (theme_leaves made).bind_of_ok
  apply (Program.write_leaves written).bind_of_ok
  exact fun journal => ⟨_, rfl⟩

/-- A call ends with what it comes to, and changes nothing but files and journal. -/
theorem Comes.exists_run {outcome : Except Fault Generation}
    (comes : call.Comes world.files world.here outcome after) :
    ∃ later, call.run world = (outcome, ⟨after, world.here, later⟩) := by
  cases comes with
  | unseen unseen => exact ⟨world.journal, run_of_unseen unseen⟩
  | refused looked present unforced =>
      exact ⟨world.journal, run_of_present looked present unforced⟩
  | unmade admitted unmade =>
      rw [run_of_admitted admitted]
      exact (write_leaves_of_unmade unmade).within _ world.journal
  | unwritten admitted made unwritten =>
      rw [run_of_admitted admitted]
      exact (write_leaves_of_unwritten made unwritten).within _ world.journal
  | written admitted made written =>
      rw [run_of_admitted admitted]
      exact (write_leaves_of_written made written).within _ world.journal

/-- Every call comes to something. -/
theorem exists_comes (call : Call) (files : FileTree) (here : Location) :
    ∃ outcome after, call.Comes files here outcome after := by
  cases looked : files.look here call.output with
  | error fault => exact ⟨_, files, .unseen looked⟩
  | ok =>
      by_cases refused : files.hasEntry here call.output = true ∧ call.force = false
      · exact ⟨_, files, .refused looked refused.1 refused.2⟩
      · rw [not_and, Bool.not_eq_false] at refused
        have admitted : call.Admitted files here := ⟨looked, refused⟩
        cases made : call.theme files here with
        | error fault => exact ⟨_, files, .unmade admitted made⟩
        | ok theme =>
            rcases wrote : files.writeWithin here call.output (call.bytes theme) with ⟨ended, after⟩
            cases ended with
            | error fault => exact ⟨_, after, .unwritten admitted made wrote⟩
            | ok => exact ⟨_, after, .written admitted made wrote⟩

/-- The run of a call in a world, with what the call comes to. -/
theorem exists_run (call : Call) (world : World) :
    ∃ outcome after later, call.run world = (outcome, ⟨after, world.here, later⟩) ∧
      call.Comes world.files world.here outcome after := by
  obtain ⟨outcome, after, comes⟩ := call.exists_comes world.files world.here
  obtain ⟨later, ended⟩ := comes.exists_run
  exact ⟨outcome, after, later, ended, comes⟩

end Call
end Generation
end DesignTokens
