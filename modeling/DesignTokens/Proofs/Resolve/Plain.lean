import DesignTokens.Proofs.Resolve.Results
import DesignTokens.Proofs.Theme

/-!
# Plain trees

A plain tree is built from scalars and objects, and no key in it is metadata.  A walk gives a plain
tree or nothing if the leaves of its tree have simple values; what the leaves of shadows, the
malformed nodes and the metadata hold makes no difference.
-/

namespace DesignTokens

namespace Json

mutual

/-- Whether a value is a scalar, or an object of such values without metadata. -/
def isPlain : Json → Bool
  | .null => false
  | .scalar _ => true
  | .list _ => false
  | .object entries => entriesPlain entries

/-- Whether all entries of an object are plain, and none is metadata. -/
def entriesPlain : List (String × Json) → Bool
  | [] => true
  | (key, value) :: rest => !isMetadata key && isPlain value && entriesPlain rest

end

theorem isPlain_object_iff (entries : Fields Json) :
    (Json.object entries).isPlain = true ↔
      ∀ entry ∈ entries, isMetadata entry.1 = false ∧ entry.2.isPlain = true := by
  rw [isPlain]
  induction entries with
  | nil => simp [entriesPlain]
  | cons entry rest ih => simp [entriesPlain, ih]

theorem isPlain_of_clean {fields : Fields Json}
    (clean : Fields.Clean (fun value => value.isPlain = true) fields) :
    (Json.object fields).isPlain = true :=
  (isPlain_object_iff fields).mpr fun entry member =>
    ⟨clean.tokens entry member, clean.values entry member⟩

end Json

namespace Node

/-- Whether a node is a shadow, or no leaf with a list or an object for its value. -/
def isSimple : Node → Bool
  | leaf type value => (leaf type value).isShadow || value.isSimple
  | _ => true

/-- Every leaf of a tree has a simple value, unless it is a shadow or lies below metadata. -/
def HasSimpleLeaves (node : Node) : Prop := node.Every fun leaf => leaf.isSimple = true

/-- A simple node has a plain value or none. -/
theorem isPlain_of_isSimple {node : Node} (simple : node.isSimple = true) {path : TokenPath}
    {result : Json} (resolved : result ∈ (node.resolveTerminal path).value) :
    result.isPlain = true := by
  cases node with
  | container children => simp [resolveTerminal] at resolved
  | malformed raw malformation => simp [resolveTerminal] at resolved
  | bare value =>
      simp only [resolveTerminal, Logged.pure_value, Option.mem_def] at resolved
      split at resolved
      · simp at resolved
      · exact Option.some.inj resolved ▸ rfl
  | leaf type value =>
      simp only [resolveTerminal, Logged.pure_value, Option.mem_def] at resolved
      split at resolved
      · obtain ⟨css, -, rfl⟩ := Option.map_eq_some_iff.mp resolved
        rfl
      · rename_i unshadowed
        rw [isSimple, isShadow, decide_eq_false unshadowed, Bool.false_or] at simple
        cases value with
        | null => simp [Json.toOption] at resolved
        | scalar value => exact Option.some.inj resolved ▸ rfl
        | list items => exact absurd simple Bool.false_ne_true
        | object entries => exact absurd simple Bool.false_ne_true

theorem HasSimpleLeaves.yields {node : Node} (simple : node.HasSimpleLeaves) :
    node.Yields fun result => result.isPlain = true :=
  simple.mono fun _ simple _ _ => isPlain_of_isSimple simple

end Node

namespace Document

theorem hasSimpleLeaves_tokens {document : Document} {key : String}
    (simple : ∀ raw ∈ Fields.get? document key, (Node.ofJson raw).HasSimpleLeaves) :
    (Node.container (document.tokens key)).HasSimpleLeaves := by
  unfold tokens
  cases found : Fields.get? document key with
  | none => exact (Node.every_container_iff []).mpr nofun
  | some raw => exact (simple raw found).children

end Document

namespace Resolve

theorem isPlain_of_node (path : TokenPath) {root : Node} (simple : root.HasSimpleLeaves) :
    ∀ result ∈ (node path root).value, result.isPlain = true :=
  (node_preserves fun _ => Json.isPlain_of_clean).values path root simple.yields

theorem isPlain_of_nodeEntries (path : TokenPath) {children : Fields Node}
    (simple : (Node.container children).HasSimpleLeaves) :
    (Json.object (nodeEntries path children).value).isPlain = true :=
  isPlain_of_node path simple _ (by rw [node]; rfl)

theorem isPlain_of_value (path : TokenPath) {raw : Json}
    (simple : (Node.ofJson raw).HasSimpleLeaves) :
    ∀ result ∈ (value path raw).value, result.isPlain = true := by
  by_cases null : raw = .null
  · rw [null]
    exact nofun
  · rw [value_of_ne_null path null]
    exact isPlain_of_node path simple

/-- If the leaves of a tree have simple values, shadows apart, then its result is plain or nothing,
and so are the trees of a theme whose sections have such leaves. -/
theorem value_and_theme_isPlain :
    (∀ (path : TokenPath) (raw : Json), (Node.ofJson raw).HasSimpleLeaves →
      ∀ result ∈ (value path raw).value, result.isPlain = true) ∧
    ∀ (settings : Settings) (document : Document),
      (∀ pass : ThemePass, ∀ raw ∈ Fields.get? document (settings.sectionKey pass.path),
        (Node.ofJson raw).HasSimpleLeaves) →
      ∃ theme, (∀ journal, (Theme.ofDocument settings document journal).1 = .ok theme) ∧
        ∀ pass, (Json.object (theme.tree pass)).isPlain = true := by
  constructor
  · exact fun path _ simple => isPlain_of_value path simple
  · intro settings document simple
    obtain ⟨theme, gives, trees⟩ := Theme.exists_ofDocument settings document
    refine ⟨theme, gives, fun pass => ?_⟩
    rw [trees, Theme.walk]
    exact isPlain_of_nodeEntries pass.path (Document.hasSimpleLeaves_tokens (simple pass))

/-- A section with a color, a shadow that is no descriptor, a leaf without a value, a list, a null
and a leaf below metadata that has a list. -/
def mixedSection : Json :=
  .object [("$extensions", .leaf "color" (.list [])), ("accent", .leaf "color" (.str "red")),
    ("card", .leaf "boxShadow" (.list [.null])), ("gap", .leaf "dimension" .null),
    ("sizes", .list [.null]), ("unknown", .null)]

/-- The mixed section resolves to a plain tree, and so does the theme of a document with nothing
else. -/
theorem mixedSection_isPlain :
    (∀ result ∈ (value ["primitive"] mixedSection).value, result.isPlain = true) ∧
    ∃ settings theme, Settings.ofEntries [] = .ok settings ∧
      (∀ journal,
        (Theme.ofDocument settings [("aura/primitive", mixedSection)] journal).1 = .ok theme) ∧
      ∀ pass, (Json.object (theme.tree pass)).isPlain = true := by
  have simple : (Node.ofJson mixedSection).HasSimpleLeaves :=
    ⟨fun token => absurd token (by decide), fun _ => rfl, fun _ => rfl, fun _ => rfl, fun _ => rfl,
      fun _ => rfl, trivial⟩
  obtain ⟨settings, loaded⟩ : ∃ settings, Settings.ofEntries [] = .ok settings := ⟨_, rfl⟩
  refine ⟨value_and_theme_isPlain.1 ["primitive"] mixedSection simple, settings, ?_⟩
  obtain ⟨theme, gives, plain⟩ :=
    value_and_theme_isPlain.2 settings [("aura/primitive", mixedSection)] (by
      intro pass raw found
      have member := Fields.mem_of_get?_eq_some found
      rw [List.mem_singleton, Prod.mk.injEq] at member
      exact member.2 ▸ simple)
  exact ⟨theme, loaded, gives, plain⟩

end Resolve
end DesignTokens
