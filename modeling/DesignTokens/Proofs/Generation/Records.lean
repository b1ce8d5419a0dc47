import DesignTokens.Proofs.Theme.Records

/-!
# The records of a generation

A generation records the defect of its document, or what its theme records and that the module is
written; all of it with the document bound, and nothing more if it ends before.  What was bound
around it is bound behind it just the same.
-/

namespace DesignTokens

namespace Program

variable {α β : Type} {program : Program α} {files between after : FileTree} {here : Location}
  {context : Fields Json} {added : List Record}

/-- With some entries bound, a program ends with an outcome, leaves files and the entries, and adds
records to those before. -/
def Adds (program : Program α) (files : FileTree) (here : Location) (context : Fields Json)
    (outcome : Except Fault α) (after : FileTree) (added : List Record) : Prop :=
  ∀ records, program ⟨files, here, context, records⟩ =
    (outcome, ⟨after, here, context, records ++ added⟩)

namespace Adds

theorem of_silent {outcome : Except Fault α}
    (silent : ∀ journal, program ⟨files, here, journal⟩ = (outcome, ⟨after, here, journal⟩))
    (context : Fields Json) : Adds program files here context outcome after [] := by
  intro records
  rw [List.append_nil]
  exact silent ⟨context, records⟩

theorem ofJournaled {work : Journaled α} {outcome : Except Fault α}
    (adds : work.Adds context outcome added) (files : FileTree) (here : Location) :
    Adds (Program.ofJournaled work) files here context outcome files added := by
  intro records
  rw [Program.ofJournaled, adds records]

theorem bind {value : α} (first : Adds program files here context (.ok value) between added)
    {next : α → Program β} {outcome : Except Fault β} {others : List Record}
    (rest : Adds (next value) between here context outcome after others) :
    Adds (program >>= next) files here context outcome after (added ++ others) := by
  intro records
  rw [Program.bind_of_ok (first records), rest, List.append_assoc]

theorem bind_of_error {fault : Fault}
    (first : Adds program files here context (.error fault) after added) (next : α → Program β) :
    Adds (program >>= next) files here context (.error fault) after added :=
  fun records => Program.bind_of_error (first records) next

theorem within {entries : Fields Json}
    (fresh : ∀ key ∈ Fields.keys entries, key ∉ Fields.keys context) {outcome : Except Fault α}
    (body : Adds program files here (Fields.merge context entries) outcome after added) :
    Adds (Program.within entries program) files here context outcome after added := by
  intro records
  have ended := body records
  have restored := Fields.without_merge fresh
  rw [Program.within, Journal.bindAll, ended]
  dsimp only
  rw [Journal.unbindAll, restored]

end Adds

theorem bytes?_of_error {path : FilePath} {world : World} {fault : Fault}
    (unseen : world.files.look world.here path = .error fault) :
    bytes? path world = (.error fault, world) :=
  bind_of_error (congrArg (·, world) unseen) _

theorem bytes?_of_ok {path : FilePath} {world : World}
    (looked : world.files.look world.here path = .ok ()) :
    bytes? path world = (.ok (world.files.bytes? world.here path), world) :=
  bind_of_ok (congrArg (·, world) looked) _

end Program

namespace Generation

variable {settings : Settings} {document : Document} {context : Fields Json}

/-- Reading a document changes nothing and records nothing. -/
theorem readDocument_eq (input : FilePath) (world : World) :
    readDocument input world = (Document.inFile input world.files world.here, world) := by
  rw [readDocument, Document.inFile]
  cases looked : world.files.look world.here input with
  | error fault => exact Program.bind_of_error (Program.bytes?_of_error looked) _
  | ok =>
      rw [Program.bind_of_ok (Program.bytes?_of_ok looked)]
      cases world.files.bytes? world.here input <;> rfl

/-! ## Documents that must be valid -/

/-- What is recorded when a document is validated and made into a theme. -/
def themeRecords (settings : Settings) (document : Document) (context : Fields Json) :
    List Record :=
  match Validation.verdict (.object document) with
  | .error _ => []
  | .ok .valid => Theme.records settings document context
  | .ok (.invalid path reason) => [⟨.structureInvalid path reason, context⟩]

/-- The records of a document that must be valid tell rightly of which section they are, and bear
the document that was bound around them. -/
theorem attributed_of_mem_themeRecords (unbound : "section" ∉ Fields.keys context) {file : Json}
    (bound : Fields.get? context "input_file" = some file) {record : Record}
    (member : record ∈ themeRecords settings document context) :
    Theme.Attributed settings document record ∧
      Fields.get? record.entries "input_file" = some file := by
  unfold themeRecords at member
  split at member
  · exact absurd member List.not_mem_nil
  · exact ⟨Theme.attributed_of_mem_records unbound member,
      Theme.input_file_of_mem_records bound member⟩
  · obtain rfl := List.mem_singleton.mp member
    exact ⟨⟨fun about => absurd about Bool.false_ne_true, fun _ => unbound⟩,
      Record.input_file_of_prefix rfl bound (List.prefix_refl context)⟩

theorem themeOf_adds (settings : Settings) (document : Document)
    (unbound : "section" ∉ Fields.keys context) :
    (themeOf settings document).Adds context (Theme.ofValid settings document)
      (themeRecords settings document context) := by
  unfold themeOf Theme.ofValid themeRecords
  cases judged : Validation.verdict (.object document) with
  | error fault =>
      have validated : (validate (.object document)).Adds context (.error fault) [] := by
        intro records
        rw [validate_of_error judged, List.append_nil]
      exact validated.bind_of_error _
  | ok verdict =>
      have validated : (validate (.object document)).Adds context (.ok verdict)
          (verdict.events.map fun event => ⟨event, context⟩) := by
        intro records
        rw [validate_of_ok judged, Journal.recordAll_eq]
      cases verdict with
      | valid => exact validated.bind (Theme.ofDocument_adds settings document unbound)
      | invalid path reason =>
          exact validated.bind (.fail (.failure (.invalidTokenStructure path reason)) context)

/-- What is recorded when the document in a file is read, validated and made into a theme. -/
def documentRecords (settings : Settings) (input : FilePath) (files : FileTree) (here : Location)
    (context : Fields Json) : List Record :=
  match Document.inFile input files here with
  | .error _ => []
  | .ok document => themeRecords settings document context

theorem attributed_of_mem_documentRecords {input : FilePath} {files : FileTree} {here : Location}
    (unbound : "section" ∉ Fields.keys context) {file : Json}
    (bound : Fields.get? context "input_file" = some file) {record : Record}
    (member : record ∈ documentRecords settings input files here context) :
    ∃ document, Document.inFile input files here = .ok document ∧
      Theme.Attributed settings document record ∧
      Fields.get? record.entries "input_file" = some file := by
  unfold documentRecords at member
  split at member
  · exact absurd member List.not_mem_nil
  · rename_i document found
    exact ⟨document, found, attributed_of_mem_themeRecords unbound bound member⟩

theorem themeOfFile_adds (settings : Settings) (input : FilePath) (files : FileTree)
    (here : Location) (unbound : "section" ∉ Fields.keys context) :
    Program.Adds (themeOfFile settings input) files here context
      (Theme.inFile settings input files here) files
      (documentRecords settings input files here context) := by
  have reads : Program.Adds (readDocument input) files here context
      (Document.inFile input files here) files [] :=
    .of_silent (fun journal => readDocument_eq input ⟨files, here, journal⟩) context
  unfold themeOfFile Theme.inFile documentRecords
  cases found : Document.inFile input files here with
  | error fault => exact (found ▸ reads).bind_of_error _
  | ok document =>
      have made := themeOf_adds settings document unbound
      exact (found ▸ reads).bind (.ofJournaled made files here)

/-! ## Calls -/

namespace Call

/-- What is bound while the module of a call is made, if `context` is bound around the call. -/
def scope (call : Call) (context : Fields Json) : Fields Json :=
  context ++ [("input_file", .str call.input.text)]

/-- How a call ends, and what it records. -/
inductive Records (call : Call) (files : FileTree) (here : Location) (context : Fields Json) :
    Except Fault Generation → List Record → Prop
  /-- The output is not to be written. -/
  | unadmitted {fault : Fault} (refused : ¬call.Admitted files here) :
      Records call files here context (.error fault) []
  /-- There is no theme, or no module. -/
  | failed {fault : Fault} (admitted : call.Admitted files here) :
      Records call files here context (.error fault)
        (documentRecords call.settings call.input files here (call.scope context))
  /-- The module is written. -/
  | written {generation : Generation} (admitted : call.Admitted files here)
      (made : call.theme files here = .ok generation.theme) :
      Records call files here context (.ok generation)
        (documentRecords call.settings call.input files here (call.scope context) ++
          [⟨.themeGenerated call.output.text generation.size, call.scope context⟩])

variable {call : Call} {files : FileTree} {here : Location}

theorem section_not_mem_scope (call : Call) (unbound : "section" ∉ Fields.keys context) :
    "section" ∉ Fields.keys (call.scope context) := by
  rw [scope, Fields.keys_append, List.mem_append, not_or]
  exact ⟨unbound, by simp⟩

/-- Making and writing the module ends as some call does that was admitted. -/
theorem exists_write_adds (admitted : call.Admitted files here)
    (unbound : "section" ∉ Fields.keys context) :
    ∃ outcome after added, call.Records files here context outcome added ∧
      Program.Adds (write call.settings call.input call.output) files here (call.scope context)
        outcome after added := by
  have made := themeOfFile_adds call.settings call.input files here
    (call.section_not_mem_scope unbound)
  unfold write
  cases found : Theme.inFile call.settings call.input files here with
  | error fault => exact ⟨_, files, _, .failed admitted, (found ▸ made).bind_of_error _⟩
  | ok theme =>
      rcases wrote : files.writeWithin here call.output (call.bytes theme) with ⟨ended, after⟩
      have writes : Program.Adds (Program.write call.output (call.bytes theme)) files here
          (call.scope context) ended after [] :=
        .of_silent (fun journal => by rw [Program.write, wrote]) _
      cases ended with
      | error fault =>
          refine ⟨.error fault, after, _, .failed admitted, ?_⟩
          rw [← List.append_nil (documentRecords ..)]
          exact (found ▸ made).bind (writes.bind_of_error _)
      | ok =>
          refine ⟨.ok (call.generation theme), after, _, .written admitted found, ?_⟩
          have told := Journaled.Adds.report
            (.themeGenerated call.output.text (call.generation theme).size) (call.scope context)
          have reported := Program.Adds.ofJournaled told after here
          exact (found ▸ made).bind (writes.bind (reported.bind (.of_silent (fun _ => rfl) _)))

/-- Whatever a call records is about the document that was read, tells rightly of which section it
is, and bears the path of the document. -/
theorem Records.attributed {outcome : Except Fault Generation} {added : List Record}
    (recorded : call.Records files here context outcome added)
    (unbound : "section" ∉ Fields.keys context) (free : "input_file" ∉ Fields.keys context)
    {record : Record} (member : record ∈ added) :
    ∃ document, Document.inFile call.input files here = .ok document ∧
      Theme.Attributed call.settings document record ∧
      Fields.get? record.entries "input_file" = some (.str call.input.text) := by
  have outside := call.section_not_mem_scope unbound
  have bound : Fields.get? (call.scope context) "input_file" = some (.str call.input.text) :=
    Fields.get?_concat free _
  cases recorded with
  | unadmitted => exact absurd member List.not_mem_nil
  | failed => exact attributed_of_mem_documentRecords outside bound member
  | written admitted made =>
      rcases List.mem_append.mp member with earlier | last
      · exact attributed_of_mem_documentRecords outside bound earlier
      · obtain rfl := List.mem_singleton.mp last
        rcases Theme.inFile_cases call.settings call.input files here with
          ⟨fault, -, unmade⟩ | ⟨path, reason, -, unmade⟩ | ⟨document, found, -, -⟩
        · exact absurd (made.symm.trans unmade) nofun
        · exact absurd (made.symm.trans unmade) nofun
        · exact ⟨document, found,
            ⟨fun about => absurd about Bool.false_ne_true, fun _ => outside⟩,
            Record.input_file_of_prefix rfl bound (List.prefix_refl _)⟩

/-- A call adds its records to those before, and what is bound behind it is what was bound before,
however it ends. -/
theorem exists_run_adds (call : Call) (files : FileTree) (here : Location)
    (unbound : "section" ∉ Fields.keys context)
    (free : "input_file" ∉ Fields.keys context) :
    ∃ outcome after added, call.Records files here context outcome added ∧
      Program.Adds call.run files here context outcome after added := by
  by_cases admitted : call.Admitted files here
  · obtain ⟨outcome, after, added, recorded, adds⟩ := exists_write_adds admitted unbound
    refine ⟨outcome, after, added, recorded, fun records => ?_⟩
    have fresh : ∀ key ∈ Fields.keys [("input_file", Json.str call.input.text)],
        key ∉ Fields.keys context := List.forall_mem_singleton.mpr free
    have merged := Fields.merge_of_disjoint fun key known added => fresh key added known
    exact Eq.trans (run_of_admitted admitted) (Program.Adds.within fresh (merged ▸ adds) records)
  · obtain ⟨outcome, after, comes⟩ := call.exists_comes files here
    cases comes with
    | unseen unseen =>
        exact ⟨_, files, [], .unadmitted admitted,
          .of_silent (fun _ => run_of_unseen unseen) context⟩
    | refused looked present unforced =>
        exact ⟨_, files, [], .unadmitted admitted,
          .of_silent (fun _ => run_of_present looked present unforced) context⟩
    | unmade reached | unwritten reached | written reached => exact absurd reached admitted

end Call

/-! ## Scopes in the pipeline -/

/-- Nested work leaves the bound entries as they were, whether it ends with a value or a fault.
Making a theme is such work; it records what its passes report, with the key of a section bound just
around what is about the subtree of that section.  A call of the generator records the same of the
document that it reads, and more around it, all with the path of the document bound.  Both leave the
bound entries as they were, however they end, if no section and no document was bound before. -/
theorem scopes_are_kept :
    (∀ (α : Type) (bound : List String) (work : Journaled α) (journal : Journal),
      Journaled.Nested bound work → (∀ key ∈ Fields.keys journal.context, key ∈ bound) →
      (work journal).2.context = journal.context) ∧
    (∀ (settings : Settings) (document : Document) (journal : Journal),
      "section" ∉ Fields.keys journal.context → "input_file" ∉ Fields.keys journal.context →
      (Theme.ofDocument settings document).Nested (Fields.keys journal.context) ∧
      Theme.ofDocument settings document journal =
        (.ok (Theme.ofWalks settings document),
          ⟨journal.context,
            journal.records ++ Theme.records settings document journal.context⟩) ∧
      ∀ record ∈ Theme.records settings document journal.context,
        Theme.Attributed settings document record) ∧
    ∀ (call : Call) (world : World),
      "section" ∉ Fields.keys world.journal.context →
      "input_file" ∉ Fields.keys world.journal.context →
      ∃ outcome after added,
        call.run world = (outcome,
          ⟨after, world.here, world.journal.context, world.journal.records ++ added⟩) ∧
        call.Records world.files world.here world.journal.context outcome added ∧
        ∀ record ∈ added, ∃ document,
          Document.inFile call.input world.files world.here = .ok document ∧
          Theme.Attributed call.settings document record ∧
          Fields.get? record.entries "input_file" = some (.str call.input.text) := by
  refine ⟨?_, ?_, ?_⟩
  · exact fun α bound work journal nested bounded => nested.context_eq bounded
  · intro settings document journal unbound _
    exact ⟨Theme.nested_ofDocument settings document unbound,
      Theme.ofDocument_adds settings document unbound journal.records,
      fun record => Theme.attributed_of_mem_records unbound⟩
  · rintro call ⟨files, here, context, records⟩ unbound free
    obtain ⟨outcome, after, added, recorded, adds⟩ :=
      call.exists_run_adds files here unbound free
    exact ⟨outcome, after, added, adds records, recorded,
      fun record => recorded.attributed unbound free⟩

/-- Blocks one in the other, the inner of which ends with a fault. -/
def failingBlocks : Journaled Unit :=
  Journaled.within [("section", .str "aura/primitive")] do
    Journaled.report (.sectionProcessed 0)
    Journaled.within [("step", .nat 1)] (throw (.compositeType "list"))

/-- A document with a malformed token in the section of the dark color scheme. -/
def malformedInk : Document := [("aura/semantic/dark", .object [("ink", .null)])]

/-- A fault in two blocks, a theme with a malformed token, and the module of an empty document. -/
theorem scopes_are_kept_of_nothing_bound :
    "section" ∉ Fields.keys Journal.empty.context ∧
    "input_file" ∉ Fields.keys Journal.empty.context ∧
    Journaled.Nested [] failingBlocks ∧
    (failingBlocks .empty).1 = .error (.compositeType "list") ∧
    (failingBlocks .empty).2.context = Journal.empty.context ∧
    ∃ settings, Settings.ofEntries [] = .ok settings ∧
      (Theme.ofDocument settings malformedInk .empty).2.context = Journal.empty.context ∧
      (∃ record ∈ Theme.records settings malformedInk [], record.event.isOfSection = true ∧
        Fields.get? record.context "section" = some (.str "aura/semantic/dark") ∧
        Theme.Attributed settings malformedInk record) ∧
      ((Call.fromRoot settings ["t.json"] ["theme.ts"]).run emptyDocument).2.journal.context =
        Journal.empty.context := by
  have unbound : "section" ∉ Fields.keys Journal.empty.context := List.not_mem_nil
  have free : "input_file" ∉ Fields.keys Journal.empty.context := List.not_mem_nil
  have nested : Journaled.Nested [] failingBlocks :=
    .within (by simp) ((Journaled.Nested.report _).bind fun _ => .within (by simp) (.fail _))
  obtain ⟨blocks, themes, calls⟩ := scopes_are_kept
  have kept := blocks Unit [] failingBlocks .empty nested (by simp [Journal.empty])
  obtain ⟨settings, loaded, member⟩ : ∃ settings, Settings.ofEntries [] = .ok settings ∧
      ⟨.tokenUnresolvable ["semantic", "dark", "ink"] .null,
        [("section", .str "aura/semantic/dark")]⟩ ∈ Theme.records settings malformedInk [] :=
    ⟨_, rfl, List.mem_of_getElem? (i := 3) rfl⟩
  obtain ⟨-, made, attributed⟩ := themes settings malformedInk .empty unbound free
  obtain ⟨outcome, after, added, ran, -⟩ :=
    calls (.fromRoot settings ["t.json"] ["theme.ts"]) emptyDocument unbound free
  exact ⟨unbound, free, nested, rfl, kept, settings, loaded, by rw [made],
    ⟨_, member, rfl, rfl, attributed _ member⟩, by rw [ran]; rfl⟩

end Generation
end DesignTokens
