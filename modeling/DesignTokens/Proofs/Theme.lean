import DesignTokens.Proofs.Log.Journal
import DesignTokens.Proofs.Resolve.Walk
import DesignTokens.Theme

/-!
# The sections of a theme

Every document has a theme.  Each of its trees is what a walk makes of one section, and a section
that is missing or no container has no tokens.  Of the walks, only the events are recorded besides
the progress of the passes.
-/

namespace DesignTokens

namespace Document

/-- The tokens of the section called `key`. -/
def tokens (document : Document) (key : String) : Fields Node :=
  match Fields.get? document key with
  | some raw => (Node.ofJson raw).children
  | none => []

theorem tokens_of_missing {document : Document} {key : String}
    (missing : (Fields.get? document key).bind Json.toOption = none) :
    document.tokens key = [] := by
  unfold tokens
  cases found : Fields.get? document key with
  | none => rfl
  | some raw =>
      rw [found] at missing
      cases raw with
      | null => rfl
      | _ => exact absurd missing nofun

theorem tokens_of_found {document : Document} {key : String} {raw : Json}
    (present : (Fields.get? document key).bind Json.toOption = some raw) :
    document.tokens key = (Node.ofJson raw).children := by
  unfold tokens
  obtain ⟨value, found, same⟩ := Option.bind_eq_some_iff.mp present
  rw [found]
  cases value with
  | null => exact absurd same nofun
  | _ => rw [Option.some.inj same]

end Document

namespace Theme

/-- The tree of a pass. -/
def tree (theme : Theme) : ThemePass → Fields Json
  | .primitive => theme.primitive
  | .semantic => theme.semantic
  | .light => theme.light
  | .dark => theme.dark

/-- The walk of a pass over its section. -/
def walk (settings : Settings) (document : Document) (pass : ThemePass) : Logged (Fields Json) :=
  Resolve.nodeEntries pass.path (document.tokens (settings.sectionKey pass.path))

/-- An event tells how far the passes have come. -/
inductive Progress : Event → Prop
  /-- A section is missing. -/
  | missing (key : String) : Progress (.sectionMissing key)
  /-- A section is no container. -/
  | notAContainer (key : String) : Progress (.sectionNotAContainer key)
  /-- A section is complete. -/
  | processed (keys : Nat) : Progress (.sectionProcessed keys)
  /-- The theme is complete. -/
  | created (tokenFormat : String) (primitiveKeys semanticKeys : Nat) :
      Progress (.themeCreated tokenFormat primitiveKeys semanticKeys)

/-! ## Sections -/

theorem resolveSection_of_missing {document : Document} {key : String}
    (missing : (Fields.get? document key).bind Json.toOption = none) (path : TokenPath) :
    resolveSection document key path = (do
      Journaled.report (.sectionMissing key)
      return []) := by
  rw [resolveSection, missing]

theorem resolveSection_of_container {document : Document} {key : String} {raw : Json}
    (found : (Fields.get? document key).bind Json.toOption = some raw) {children : Fields Node}
    (container : Node.ofJson raw = .container children) (path : TokenPath) :
    resolveSection document key path = Journaled.within [("section", .str key)] (do
      let entries ← Journaled.ofLogged (Resolve.nodeEntries path children)
      Journaled.report (.sectionProcessed entries.length)
      return entries) := by
  rw [resolveSection, found]
  simp only [container]

theorem resolveSection_of_terminal {document : Document} {key : String} {raw : Json}
    (found : (Fields.get? document key).bind Json.toOption = some raw)
    (terminal : (Node.ofJson raw).isContainer = false) (path : TokenPath) :
    resolveSection document key path = (do
      Journaled.report (.sectionNotAContainer key)
      return []) := by
  rw [resolveSection, found]
  cases shaped : Node.ofJson raw with
  | container children => simp [shaped, Node.isContainer] at terminal
  | _ => simp only [shaped]

/-- A section gives what the walk over its tokens gives, and records what the walk reports. -/
theorem resolveSection_spec (document : Document) (key : String) (path : TokenPath) :
    (resolveSection document key path).Gives
        (Resolve.nodeEntries path (document.tokens key)).value ∧
      (resolveSection document key path).RecordsOnly fun event =>
        Progress event ∨ event ∈ (Resolve.nodeEntries path (document.tokens key)).events := by
  cases found : (Fields.get? document key).bind Json.toOption with
  | none =>
      rw [resolveSection_of_missing found, Document.tokens_of_missing found]
      constructor
      · exact (Journaled.Gives.report _).bind (.pure [])
      · exact (Journaled.RecordsOnly.report (.inl (.missing key))).bind fun _ => .pure []
  | some raw =>
      rw [Document.tokens_of_found found]
      cases container : (Node.ofJson raw).isContainer with
      | false =>
          rw [resolveSection_of_terminal found container, Node.children_of_terminal container]
          constructor
          · exact (Journaled.Gives.report _).bind (.pure [])
          · exact (Journaled.RecordsOnly.report (.inl (.notAContainer key))).bind fun _ => .pure []
      | true =>
          obtain ⟨children, shaped⟩ := Node.exists_children container
          rw [resolveSection_of_container found shaped, shaped]
          constructor
          · apply Journaled.Gives.within
            exact (Journaled.Gives.ofLogged _).bind ((Journaled.Gives.report _).bind (.pure _))
          · apply Journaled.RecordsOnly.within
            refine (Journaled.RecordsOnly.ofLogged fun _ reported => .inr reported).bind ?_
            intro entries
            exact (Journaled.RecordsOnly.report (.inl (.processed entries.length))).bind
              fun _ => .pure entries

/-! ## Themes -/

/-- The tree of every pass is what its walk gives. -/
theorem exists_ofDocument (settings : Settings) (document : Document) :
    ∃ theme, (ofDocument settings document).Gives theme ∧
      ∀ pass, theme.tree pass = (walk settings document pass).value := by
  have gives : ∀ pass, (resolvePass settings document pass).Gives
      (walk settings document pass).value := fun pass =>
    (resolveSection_spec document (settings.sectionKey pass.path) pass.path).1
  refine ⟨⟨(walk settings document .primitive).value, (walk settings document .semantic).value,
    (walk settings document .light).value, (walk settings document .dark).value⟩, ?_, ?_⟩
  · refine (gives .primitive).bind ((gives .semantic).bind ((gives .light).bind
      ((gives .dark).bind ?_)))
    exact (Journaled.Gives.report _).bind (.pure _)
  · rintro (_ | _ | _ | _) <;> rfl

/-- A theme records nothing but its progress and what the walks report. -/
theorem recordsOnly_ofDocument (settings : Settings) (document : Document) :
    (ofDocument settings document).RecordsOnly fun event =>
      Progress event ∨ ∃ pass, event ∈ (walk settings document pass).events := by
  have records : ∀ pass, (resolvePass settings document pass).RecordsOnly fun event =>
      Progress event ∨ ∃ pass, event ∈ (walk settings document pass).events := by
    intro pass
    apply (resolveSection_spec document (settings.sectionKey pass.path) pass.path).2.mono
    exact fun _ => Or.imp_right fun reported => ⟨pass, reported⟩
  refine (records .primitive).bind fun primitive =>
    (records .semantic).bind fun semantic =>
      (records .light).bind fun light => (records .dark).bind fun dark => ?_
  exact (Journaled.RecordsOnly.report (.inl (.created _ _ _))).bind fun _ => .pure _

end Theme
end DesignTokens
