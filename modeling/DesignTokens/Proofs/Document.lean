import DesignTokens.Document
import DesignTokens.Proofs.File.Tree

/-!
# Documents in files

Why there is no document in a file: its path is too long, there is no such file, its bytes are not
UTF-8, or its text is no JSON, has a whole number that is too long, or is not an object.
-/

namespace DesignTokens
namespace Document

/-- The document in a file, if there is one. -/
def ofFound (input : FilePath) : Option (List UInt8) → Except Fault Document
  | none => .error (.failure (.tokenFileNotFound input.text))
  | some bytes => ofBytes input.text bytes

/-- The document in a file of a tree. -/
def inFile (input : FilePath) (files : FileTree) (here : Location) : Except Fault Document :=
  (files.look here input).bind fun _ => ofFound input (files.bytes? here input)

/-- A text is no document from a source, with the fault that this is. -/
inductive Refuted (source text : String) : Fault → Prop
  /-- It has a whole number with too many digits. -/
  | longInteger {digits : Nat} (refused : Json.read text = .error (.longInteger digits)) :
      Refuted source text (.longInteger (.longInteger digits))
  /-- It is not JSON. -/
  | malformed {misfit : Json.Misfit} {position : Text.Position}
      (refused : Json.read text = .error (.malformed misfit position)) :
      Refuted source text (.failure (.invalidTokenJson source
        (Json.Fault.malformed misfit position).describe))
  /-- It is not an object. -/
  | notAnObject {value : Json} (read : Json.read text = .ok value)
      (other : ∀ entries, value ≠ .object entries) :
      Refuted source text (.failure (.invalidTokenJson source
        ("expected an object at the top level, got " ++ value.kind)))

/-- There is no document in a file, with the fault that this is. -/
inductive Unread (input : FilePath) (files : FileTree) (here : Location) : Fault → Prop
  /-- The path is too long. -/
  | long (long : files.locate here input = .error .long) :
      Unread input files here (.longPath input.text)
  /-- There is no file. -/
  | missing (looked : files.locate here input ≠ .error .long)
      (missing : files.bytes? here input = none) :
      Unread input files here (.failure (.tokenFileNotFound input.text))
  /-- The file is not UTF-8. -/
  | undecodable {bytes : List UInt8} {fault : Text.Utf8Fault}
      (found : files.bytes? here input = some bytes)
      (undecodable : Text.Utf8.decode bytes = .error fault) :
      Unread input files here (.undecodable fault)
  /-- The text in the file is no document. -/
  | refuted {bytes : List UInt8} {text : String} {fault : Fault}
      (found : files.bytes? here input = some bytes) (decoded : textOfBytes bytes = .ok text)
      (refuted : Refuted input.text text fault) : Unread input files here fault

theorem ofText_eq_error_iff {source text : String} {fault : Fault} :
    ofText source text = .error fault ↔ Refuted source text fault := by
  constructor
  · intro ended
    unfold ofText at ended
    cases read : Json.read text with
    | ok value =>
        rw [read] at ended
        cases value with
        | object entries => exact absurd ended nofun
        | _ => exact Except.error.inj ended ▸ .notAnObject read nofun
    | error cause =>
        rw [read] at ended
        cases cause with
        | malformed misfit position => exact Except.error.inj ended ▸ .malformed read
        | longInteger digits => exact Except.error.inj ended ▸ .longInteger read
  · intro refuted
    unfold ofText
    cases refuted with
    | longInteger refused => rw [refused]
    | malformed refused => rw [refused]
    | @notAnObject value read other =>
        rw [read]
        cases value with
        | object entries => exact absurd rfl (other entries)
        | _ => rfl

theorem ofBytes_eq_error_iff {source : String} {bytes : List UInt8} {fault : Fault} :
    ofBytes source bytes = .error fault ↔
      (∃ cause, fault = .undecodable cause ∧ Text.Utf8.decode bytes = .error cause) ∨
      ∃ text, textOfBytes bytes = .ok text ∧ Refuted source text fault := by
  unfold ofBytes textOfBytes
  cases decoded : Text.Utf8.decode bytes with
  | error cause => simp [Except.bind, eq_comm]
  | ok cs => simp [Except.bind, ofText_eq_error_iff]

theorem inFile_of_found {input : FilePath} {files : FileTree} {here : Location}
    {bytes : List UInt8} (found : files.bytes? here input = some bytes) :
    inFile input files here = ofBytes input.text bytes := by
  rw [inFile, FileTree.look_of_ne_long (FileTree.locate_ne_long_of_bytes? found), found]
  rfl

theorem exists_bytes_of_inFile {input : FilePath} {files : FileTree} {here : Location}
    {document : Document} (read : inFile input files here = .ok document) :
    ∃ bytes, files.bytes? here input = some bytes ∧ ofBytes input.text bytes = .ok document := by
  unfold inFile at read
  cases looked : files.look here input with
  | error fault => exact absurd (looked ▸ read) nofun
  | ok =>
      rw [looked] at read
      cases found : files.bytes? here input with
      | none => exact absurd (found ▸ read) nofun
      | some bytes =>
          rw [found] at read
          exact ⟨bytes, rfl, read⟩

theorem inFile_eq_error_iff {input : FilePath} {files : FileTree} {here : Location}
    {fault : Fault} : inFile input files here = .error fault ↔ Unread input files here fault := by
  cases found : files.bytes? here input with
  | some bytes =>
      rw [inFile_of_found found, ofBytes_eq_error_iff]
      constructor
      · rintro (⟨cause, rfl, undecodable⟩ | ⟨text, decoded, refuted⟩)
        · exact .undecodable found undecodable
        · exact .refuted found decoded refuted
      · intro unread
        cases unread with
        | long long => exact absurd long (FileTree.locate_ne_long_of_bytes? found)
        | missing _ missing => exact absurd (found ▸ missing) nofun
        | undecodable again undecodable =>
            obtain rfl := Option.some.inj (found.symm.trans again)
            exact .inl ⟨_, rfl, undecodable⟩
        | refuted again decoded refuted =>
            obtain rfl := Option.some.inj (found.symm.trans again)
            exact .inr ⟨_, decoded, refuted⟩
  | none =>
      by_cases long : files.locate here input = .error .long
      · rw [inFile, FileTree.look_of_long long]
        constructor
        · exact fun ended => Except.error.inj ended ▸ .long long
        · intro unread
          cases unread with
          | long => rfl
          | missing looked => exact absurd long looked
          | undecodable again => exact absurd (found.symm.trans again) nofun
          | refuted again => exact absurd (found.symm.trans again) nofun
      · rw [inFile, FileTree.look_of_ne_long long, found]
        constructor
        · exact fun ended => Except.error.inj ended ▸ .missing long found
        · intro unread
          cases unread with
          | long refused => exact absurd refused long
          | missing => rfl
          | undecodable again => exact absurd (found.symm.trans again) nofun
          | refuted again => exact absurd (found.symm.trans again) nofun

end Document
end DesignTokens
