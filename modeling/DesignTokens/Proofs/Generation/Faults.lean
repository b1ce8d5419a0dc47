import DesignTokens.Proofs.Command.Run
import DesignTokens.Proofs.File.Writing
import DesignTokens.Proofs.Json.Ordinary

/-!
# Faults that are no failures

A validation of an ordinary document ends with a fault that is no failure if the path of the document
is too long, its bytes are not UTF-8, a whole number in it is too long, or its first anomaly is a type
that cannot be looked up.  A generation ends so in these cases as well, and if the system refuses its
output.  Commands tell failures and pass on every other fault.  Nothing is said of documents with
halves of pairs on their own, which cannot be encoded, and with nesting beyond the limit.
-/

namespace DesignTokens

/-- The pipeline foresees a fault. -/
def Fault.IsFailure (fault : Fault) : Prop := ∃ failure, fault = .failure failure

/-! ## Faults of the system -/

namespace FileTree

variable {tree after : FileTree} {here : Location} {path : FilePath} {fault : Fault}

theorem not_isFailure_obstacleFault (path : FilePath) (obstacle : Obstacle) :
    ¬(obstacleFault path obstacle).IsFailure := by
  rintro ⟨failure, same⟩
  cases obstacle <;> exact absurd same nofun

theorem not_isFailure_of_ensureDirectory (ended : tree.ensureDirectory here path = .error fault) :
    ¬fault.IsFailure := by
  unfold ensureDirectory at ended
  split at ended
  · exact absurd ended nofun
  · split at ended
    · exact absurd ended nofun
    · obtain rfl := Except.error.inj ended
      exact fun ⟨failure, same⟩ => absurd same nofun
  · obtain rfl := Except.error.inj ended
    exact not_isFailure_obstacleFault path _

theorem not_isFailure_of_ensureLast (ended : tree.ensureLast here path = (.error fault, after)) :
    ¬fault.IsFailure := by
  unfold ensureLast at ended
  split at ended
  · exact absurd (congrArg Prod.fst ended) nofun
  · rename_i refused
    obtain ⟨same, -⟩ := Prod.mk.inj ended
    exact Except.error.inj same ▸ not_isFailure_of_ensureDirectory refused

theorem not_isFailure_of_ensureWithin {names : List String}
    (ended : tree.ensureWithin here { path with names } = (.error fault, after)) :
    ¬fault.IsFailure := by
  -- A directory that is missing fails as one above it does, or in its own way.
  induction names using List.reverseRecOn generalizing after with
  | nil => exact not_isFailure_of_ensureLast ended
  | append_singleton names name ih =>
      by_cases missing : tree.locate here { path with names := names ++ [name] } = .error .missing
      · rw [ensureWithin_of_missing missing, FilePath.parent, List.dropLast_concat] at ended
        split at ended
        · rename_i stopped
          exact ih (stopped.trans ended)
        · exact not_isFailure_of_ensureLast ended
      · rw [ensureWithin_of_unmissed missing] at ended
        exact not_isFailure_of_ensureLast ended

theorem not_isFailure_of_write {bytes : List UInt8}
    (ended : tree.write here path bytes = .error fault) : ¬fault.IsFailure := by
  unfold write at ended
  split at ended
  · obtain rfl := Except.error.inj ended
    exact not_isFailure_obstacleFault path _
  · split at ended
    · obtain rfl := Except.error.inj ended
      exact fun ⟨failure, same⟩ => absurd same nofun
    · exact absurd ended nofun

theorem not_isFailure_of_writeWithin {bytes : List UInt8}
    (ended : tree.writeWithin here path bytes = (.error fault, after)) : ¬fault.IsFailure := by
  unfold writeWithin at ended
  split at ended
  · rename_i stopped
    exact not_isFailure_of_ensureWithin (stopped.trans ended)
  · split at ended
    · exact absurd (congrArg Prod.fst ended) nofun
    · rename_i refused
      obtain ⟨same, -⟩ := Prod.mk.inj ended
      exact Except.error.inj same ▸ not_isFailure_of_write refused

end FileTree

/-! ## Reading -/

/-- The text in a file, if there is one, is ordinary. -/
def Document.IsOrdinary (input : FilePath) (files : FileTree) (here : Location) : Prop :=
  ∀ bytes text, files.bytes? here input = some bytes → textOfBytes bytes = .ok text →
    Json.isOrdinary text.toList = true

/-- The reading and the validation of a document end with a fault that is no failure. -/
inductive InputFault (input : FilePath) (files : FileTree) (here : Location) : Fault → Prop
  /-- The path is too long. -/
  | long (long : files.locate here input = .error .long) :
      InputFault input files here (.longPath input.text)
  /-- The file is not UTF-8. -/
  | undecodable {bytes : List UInt8} {fault : Text.Utf8Fault}
      (found : files.bytes? here input = some bytes)
      (undecodable : Text.Utf8.decode bytes = .error fault) :
      InputFault input files here (.undecodable fault)
  /-- A whole number has too many digits. -/
  | longInteger {bytes : List UInt8} {text : String} {digits : Nat}
      (found : files.bytes? here input = some bytes)
      (decoded : Document.textOfBytes bytes = .ok text)
      (refused : Json.read text = .error (.longInteger digits)) :
      InputFault input files here (.longInteger (.longInteger digits))
  /-- The first anomaly of the document is a type that cannot be looked up. -/
  | compositeType {document : Document} {path : TokenPath} {value type : Json}
      (read : Document.inFile input files here = .ok document)
      (first : Validation.FirstAnomaly (.object document) path value (.compositeType type)) :
      InputFault input files here (.compositeType type.kind)

theorem Verdict.inFile_of_unread {input : FilePath} {files : FileTree} {here : Location}
    {fault : Fault} (unread : Document.Unread input files here fault) :
    inFile input files here = .error fault := by
  rw [inFile, Document.inFile_eq_error_iff.mpr unread]
  rfl

theorem Verdict.inFile_untyped_iff {input : FilePath} {files : FileTree} {here : Location}
    {fault : Fault} :
    (inFile input files here = .error fault ∧ ¬fault.IsFailure) ↔
      InputFault input files here fault := by
  constructor
  · rintro ⟨ended, untyped⟩
    unfold inFile at ended
    cases read : Document.inFile input files here with
    | error other =>
        rw [read] at ended
        obtain rfl := Except.error.inj ended
        cases Document.inFile_eq_error_iff.mp read with
        | long long => exact .long long
        | missing => exact absurd ⟨_, rfl⟩ untyped
        | undecodable found undecodable => exact .undecodable found undecodable
        | refuted found decoded refuted =>
            cases refuted with
            | longInteger refused => exact .longInteger found decoded refused
            | malformed => exact absurd ⟨_, rfl⟩ untyped
            | notAnObject => exact absurd ⟨_, rfl⟩ untyped
    | ok document =>
        rw [read] at ended
        obtain ⟨path, value, type, first, rfl⟩ :=
          (Validation.verdict_eq_error_iff (.object document) fault).mp ended
        exact .compositeType read first
  · intro input
    constructor
    · cases input with
      | long long => exact inFile_of_unread (.long long)
      | undecodable found undecodable => exact inFile_of_unread (.undecodable found undecodable)
      | longInteger found decoded refused =>
          exact inFile_of_unread (.refuted found decoded (.longInteger refused))
      | compositeType read first =>
          rw [inFile, read]
          exact (Validation.verdict_eq_error_iff _ _).mpr ⟨_, _, _, first, rfl⟩
    · rintro ⟨failure, rfl⟩
      cases input

theorem Theme.inFile_untyped_iff (settings : Settings) {input : FilePath} {files : FileTree}
    {here : Location} {fault : Fault} :
    (inFile settings input files here = .error fault ∧ ¬fault.IsFailure) ↔
      InputFault input files here fault := by
  rw [← Verdict.inFile_untyped_iff]
  rcases inFile_cases settings input files here with
    ⟨other, verdict, theme⟩ | ⟨path, reason, verdict, theme⟩ | ⟨document, -, verdict, theme⟩
  · rw [verdict, theme]
    simp
  · rw [verdict, theme]
    constructor
    · rintro ⟨ended, untyped⟩
      exact absurd ⟨_, (Except.error.inj ended).symm⟩ untyped
    · exact fun ended => absurd ended.1 nofun
  · rw [verdict, theme]
    simp

/-! ## Calls -/

namespace Generation

/-- A call ends with a fault that is no failure. -/
inductive CallFault (call : Call) (files : FileTree) (here : Location) : Fault → Prop
  /-- The path of the output is too long. -/
  | long (long : files.locate here call.output = .error .long) :
      CallFault call files here (.longPath call.output.text)
  /-- The document cannot be read or validated. -/
  | input {fault : Fault} (admitted : call.Admitted files here)
      (input : InputFault call.input files here fault) : CallFault call files here fault
  /-- The system refuses to write the module. -/
  | output {theme : Theme} {fault : Fault} {after : FileTree} (admitted : call.Admitted files here)
      (made : call.theme files here = .ok theme)
      (unwritten : files.writeWithin here call.output (call.bytes theme) = (.error fault, after)) :
      CallFault call files here fault

theorem run_untyped_iff {call : Call} {world : World} {fault : Fault} :
    ((call.run world).1 = .error fault ∧ ¬fault.IsFailure) ↔
      CallFault call world.files world.here fault := by
  constructor
  · rintro ⟨ended, untyped⟩
    obtain ⟨outcome, after, later, ran, comes⟩ := call.exists_run world
    rw [ran] at ended
    obtain rfl : outcome = .error fault := ended
    cases comes with
    | unseen unseen =>
        by_cases long : world.files.locate world.here call.output = .error .long
        · rw [FileTree.look_of_long long] at unseen
          exact Except.error.inj unseen ▸ .long long
        · exact absurd ((FileTree.look_of_ne_long long).symm.trans unseen) nofun
    | refused => exact absurd ⟨_, rfl⟩ untyped
    | unmade admitted unmade =>
        exact .input admitted ((Theme.inFile_untyped_iff call.settings).mp ⟨unmade, untyped⟩)
    | unwritten admitted made unwritten => exact .output admitted made unwritten
  · intro faulty
    cases faulty with
    | long long =>
        obtain ⟨later, ran⟩ := (Call.Comes.unseen (FileTree.look_of_long long)).exists_run
        rw [ran]
        exact ⟨rfl, fun ⟨failure, same⟩ => absurd same nofun⟩
    | input admitted input =>
        obtain ⟨unmade, untyped⟩ := (Theme.inFile_untyped_iff call.settings).mpr input
        obtain ⟨later, ran⟩ := (Call.Comes.unmade admitted unmade).exists_run
        rw [ran]
        exact ⟨rfl, untyped⟩
    | output admitted made unwritten =>
        obtain ⟨later, ran⟩ := (Call.Comes.unwritten admitted made unwritten).exists_run
        rw [ran]
        exact ⟨rfl, FileTree.not_isFailure_of_writeWithin unwritten⟩

/-- A call with a plain output ends so exactly if the path of the output is too long, the document
cannot be read or validated, or the output is obstructed. -/
theorem exists_callFault_iff_of_plain {call : Call} {files : FileTree} {here : Location}
    (closed : files.Closed) (standing : files.entry? here = some .directory)
    (plain : call.output.Plain) :
    (∃ fault, CallFault call files here fault) ↔
      files.locate here call.output = .error .long ∨
      call.Admitted files here ∧
        ((∃ fault, InputFault call.input files here fault) ∨
          (∃ theme, call.theme files here = .ok theme) ∧ files.Obstructed here call.output) := by
  constructor
  · rintro ⟨fault, faulty⟩
    cases faulty with
    | long long => exact .inl long
    | input admitted input => exact .inr ⟨admitted, .inl ⟨fault, input⟩⟩
    | @output theme _ after admitted made unwritten =>
        have fits := FileTree.fits_of_look plain admitted.looked
        rcases FileTree.writeWithin_of_plain closed standing fits plain (call.bytes theme) with
          ⟨-, -, obstructed⟩ | ⟨_, wrote⟩
        · exact .inr ⟨admitted, .inr ⟨⟨theme, made⟩, obstructed⟩⟩
        · exact absurd (unwritten.symm.trans wrote) nofun
  · rintro (long | ⟨admitted, ⟨fault, input⟩ | ⟨⟨theme, made⟩, obstructed⟩⟩)
    · exact ⟨_, .long long⟩
    · exact ⟨fault, .input admitted input⟩
    · have fits := FileTree.fits_of_look plain admitted.looked
      rcases FileTree.writeWithin_of_plain closed standing fits plain (call.bytes theme) with
        ⟨fault, unwritten, -⟩ | ⟨after, wrote⟩
      · exact ⟨fault, .output admitted made unwritten⟩
      · obtain ⟨location, written⟩ := FileTree.exists_written_of_writeWithin wrote
        exact absurd obstructed
          (written.unobstructed (FilePath.not_mem_of_plain plain) closed standing)

end Generation

/-! ## Commands -/

namespace Command

open Generation

theorem told_eq_error_iff {outcome : Except Fault Told} {fault : Fault} :
    told outcome = .error fault ↔ outcome = .error fault ∧ ¬fault.IsFailure := by
  constructor
  · intro ended
    cases outcome with
    | ok value => exact absurd ended nofun
    | error other =>
        cases other with
        | failure failure => exact absurd ended nofun
        | _ =>
            obtain rfl := Except.error.inj ended
            exact ⟨rfl, fun ⟨failure, same⟩ => absurd same nofun⟩
  · rintro ⟨rfl, untyped⟩
    cases fault with
    | failure failure => exact absurd ⟨failure, rfl⟩ untyped
    | _ => rfl

/-- What is told about a value or a failure has an exit code of the value, or one. -/
theorem code_of_told {α : Type} {value : α → Told} {outcome : Except Fault α} {result : Told}
    (ended : told (outcome.map value) = .ok result) :
    (∃ a, result = value a) ∨ result.1 = 1 := by
  cases outcome with
  | ok a => exact .inl ⟨a, (Except.ok.inj ended).symm⟩
  | error fault =>
      cases fault with
      | failure failure => exact .inr (Except.ok.inj ended ▸ rfl)
      | _ => exact absurd ended nofun

theorem map_eq_error_iff {α β : Type} {value : α → β} {outcome : Except Fault α} {fault : Fault} :
    outcome.map value = .error fault ↔ outcome = .error fault := by
  cases outcome <;> simp [Except.map]

theorem runValidate_spec (input : String) (world : World) :
    (∀ fault, (runValidate input world).1 = .error fault ↔
      InputFault (.ofText input) world.files world.here fault) ∧
    ∀ result, (runValidate input world).1 = .ok result → result.1 = 0 ∨ result.1 = 1 := by
  obtain ⟨later, judged⟩ := exists_validateFile_eq (.ofText input) world
  rw [runValidate_eq, judged]
  constructor
  · intro fault
    rw [told_eq_error_iff, map_eq_error_iff, Verdict.inFile_untyped_iff]
  · intro result ended
    rcases code_of_told ended with ⟨verdict, rfl⟩ | failed
    · cases verdict with
      | valid => exact .inl rfl
      | invalid path reason => exact .inr rfl
    · exact .inr failed

theorem runConvert_spec (settings : Settings) (input : String) (output : Option String)
    (force : Bool) (world : World) :
    (∀ fault, (runConvert settings input output force world).1 = .error fault ↔
      callOf? settings world.here input output force = none ∧ fault = .nulInPath ∨
      ∃ call, callOf? settings world.here input output force = some call ∧
        CallFault call world.files world.here fault) ∧
    ∀ result, (runConvert settings input output force world).1 = .ok result →
      result.1 = 0 ∨ result.1 = 1 := by
  cases calls : callOf? settings world.here input output force with
  | none =>
      rw [runConvert_of_refused calls]
      simp [eq_comm]
  | some call =>
      rw [runConvert_of_call calls]
      constructor
      · intro fault
        rw [told_eq_error_iff, map_eq_error_iff, run_untyped_iff]
        simp
      · intro result ended
        rcases code_of_told ended with ⟨generation, rfl⟩ | failed
        · exact .inl rfl
        · exact .inr failed

end Command

namespace Generation

end Generation
end DesignTokens
