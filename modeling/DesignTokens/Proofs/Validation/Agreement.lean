import DesignTokens.Proofs.Json.Describe
import DesignTokens.Proofs.Resolve.Diagnostics
import DesignTokens.Proofs.Theme
import DesignTokens.Proofs.Validation.FirstAnomaly

/-!
# Validation and token trees

A validation looks at a document, and a walk at the token tree of the document.  The two classify
values on their own, and they agree on a regular document: it is valid just if its tree is made of
containers and leaves whose shadows are complete.  So no walk over a section of a valid document has
a malformed node to report, unless the whole document is a leaf: then a validation looks no further,
while its sections are resolved all the same.
-/

namespace DesignTokens

/-- The values at the token positions of a document are regular: none is a list or an object with a
theme list, no entry is called like a number, and no leaf has a list or an object for its type.  The
entries of an object are token positions unless the object is a leaf. -/
inductive Json.Regular : Json → Prop
  /-- A null. -/
  | null : Regular .null
  /-- A scalar. -/
  | scalar (value : Scalar) : Regular (.scalar value)
  /-- A leaf without a theme list and with a simple type. -/
  | leaf {entries : Fields Json} {type : Json} (unthemed : themesKey ∉ Fields.keys entries)
      (typed : Fields.get? entries typeKey = some type) (valued : valueKey ∈ Fields.keys entries)
      (simple : type.isSimple = true) : Regular (.object entries)
  /-- Any other object without a theme list, none of whose entries is called like a number. -/
  | object {entries : Fields Json} (unthemed : themesKey ∉ Fields.keys entries)
      (leafless : Node.isLeafObject (.object entries) = false)
      (named : ∀ key ∈ Fields.keys entries, Text.isNumeral key = false)
      (parts : ∀ entry ∈ entries, Regular entry.2) : Regular (.object entries)

/-- A tree is made of containers and leaves, and every leaf of a shadow type has a shadow value. -/
inductive Node.Sound : Node → Prop
  /-- A leaf. -/
  | leaf {type : String} {value : Json}
      (shadow : type ∈ Shadow.types → Validation.isShadowValue value = true) :
      Sound (.leaf type value)
  /-- A container. -/
  | container {children : Fields Node} (parts : ∀ child ∈ children, Sound child.2) :
      Sound (.container children)

namespace Node

theorem isLeafObject_of_shape {entries : Fields Json} {type value : Json}
    (shaped : shape entries = .leaf type value) : isLeafObject (.object entries) = true := by
  unfold shape at shaped
  split at shaped
  · rename_i typed valued
    rw [isLeafObject, Bool.and_eq_true, Fields.has_eq_true_iff, Fields.has_eq_true_iff,
      Fields.mem_keys_iff_exists, Fields.mem_keys_iff_exists]
    exact ⟨⟨_, typed⟩, _, valued⟩
  all_goals exact absurd shaped nofun

theorem sound_leaf_iff (type : String) (value : Json) :
    (leaf type value).Sound ↔ (type ∈ Shadow.types → Validation.isShadowValue value = true) := by
  constructor
  · rintro ⟨shadow⟩
    exact shadow
  · exact .leaf

theorem not_sound_bare (value : Scalar) : ¬(bare value).Sound := by
  intro sound
  cases sound

theorem not_sound_malformed (raw : Json) (malformation : Malformation) :
    ¬(malformed raw malformation).Sound := by
  intro sound
  cases sound

theorem sound_container_iff (entries : Fields Json) :
    (container (childrenOfJson entries)).Sound ↔
      ∀ entry ∈ entries, (ofJson entry.2).Sound := by
  rw [childrenOfJson_eq_map]
  constructor
  · intro sound
    cases sound with
    | container parts => exact fun entry member => parts _ (List.mem_map_of_mem member)
  · intro parts
    exact .container (List.forall_mem_map.mpr parts)

end Node

namespace Validation

/-! ## Agreement -/

theorem isLiteralChar_shadow :
    ∀ name ∈ Shadow.types, ∃ c ∈ name.toList, isLiteralChar c = false := by
  have spelled : ∀ name ∈ Shadow.types, 'w' ∈ name.toList := by decide
  exact fun name shadow => ⟨'w', spelled name shadow, rfl⟩

theorem leafAnomaly_str_eq_none_iff (name : String) (value : Json) :
    leafAnomaly (.str name) value = none ↔ (name ∈ Shadow.types → isShadowValue value = true) := by
  by_cases shadow : name ∈ Shadow.types <;> simp [leafAnomaly, shadow]

/-- A leaf with a simple type has no anomaly just if it is sound. -/
theorem leafAnomaly_eq_none_iff {type : Json} (simple : type.isSimple = true) (value : Json) :
    leafAnomaly type value = none ↔
      (type.describe ∈ Shadow.types → isShadowValue value = true) := by
  by_cases text : ∃ name, type = .str name
  · obtain ⟨name, rfl⟩ := text
    exact leafAnomaly_str_eq_none_iff name value
  · have unshadowed : type.describe ∉ Shadow.types := fun shadow =>
      text (Json.eq_str_of_describe simple (isLiteralChar_shadow _ shadow))
    have right : leafAnomaly type value = none := by
      unfold leafAnomaly
      split
      · exact absurd simple Bool.false_ne_true
      · exact absurd simple Bool.false_ne_true
      · exact absurd ⟨_, rfl⟩ text
      · rfl
    exact iff_of_true right fun shadow => absurd shadow unshadowed

theorem firstAnomalyIn_eq_none_iff {entries : Fields Json}
    (named : ∀ key ∈ Fields.keys entries, Text.isNumeral key = false) (path : TokenPath) :
    firstAnomalyIn path entries = none ↔
      ∀ entry ∈ entries, firstAnomaly (path ++ [entry.1]) entry.2 = none := by
  induction entries with
  | nil => simp [firstAnomalyIn]
  | cons entry rest ih =>
      rw [Fields.keys_cons, List.forall_mem_cons] at named
      rw [firstAnomalyIn, named.1, if_neg Bool.false_ne_true, Option.or_eq_none_iff, ih named.2,
        List.forall_mem_cons]

/-- A validation and a walk agree on the nodes of a regular document. -/
theorem firstAnomaly_eq_none_iff_sound {value : Json} (regular : value.Regular)
    (path : TokenPath) : firstAnomaly path value = none ↔ (Node.ofJson value).Sound := by
  induction regular generalizing path with
  | null => exact iff_of_false (by simp [firstAnomaly]) (Node.not_sound_malformed .null .null)
  | scalar value => exact iff_of_false (by simp [firstAnomaly]) (Node.not_sound_bare value)
  | @leaf entries type unthemed typed valued simple =>
      obtain ⟨value, valued⟩ := (Fields.mem_keys_iff_exists entries valueKey).mp valued
      have shaped : Node.shape entries = .leaf type value := by rw [Node.shape, typed, valued]
      rw [← Fields.has_eq_false_iff] at unthemed
      rw [firstAnomaly, unthemed, if_neg Bool.false_ne_true, shaped, Node.ofJson, shaped,
        Node.sound_leaf_iff, ← leafAnomaly_eq_none_iff simple]
      exact Option.map_eq_none_iff
  | @object entries unthemed leafless named parts ih =>
      rw [← Fields.has_eq_false_iff] at unthemed
      rw [firstAnomaly, unthemed, if_neg Bool.false_ne_true, Node.ofJson]
      cases shaped : Node.shape entries with
      | leaf type value =>
          rw [Node.isLeafObject_of_shape shaped] at leafless
          exact absurd leafless.symm Bool.false_ne_true
      | malformed malformation =>
          apply iff_of_false _ (Node.not_sound_malformed (.object entries) malformation)
          cases malformation <;> simp
      | container =>
          rw [Node.sound_container_iff]
          simp only [firstAnomalyIn_eq_none_iff named]
          exact forall₂_congr fun entry member => ih entry member _

end Validation

/-! ## Themes of valid documents -/

namespace Node

/-- A sound tree has nothing to report. -/
theorem Sound.diagnostics_eq_nil {node : Node} (sound : node.Sound) (path : TokenPath) :
    node.diagnostics path = [] := by
  induction sound generalizing path with
  | leaf shadow => rw [diagnostics]
  | @container children parts ih =>
      rw [diagnostics_container]
      induction children with
      | nil => rfl
      | cons child rest step =>
          obtain ⟨-, others⟩ := List.forall_mem_cons.mp parts
          obtain ⟨here, rest⟩ := List.forall_mem_cons.mp ih
          rw [childDiagnostics, here, step others rest]
          simp

theorem Sound.children {node : Node} (sound : node.Sound) :
    (Node.container node.children).Sound := by
  cases sound with
  | leaf shadow => exact .container nofun
  | container parts => exact .container parts

/-- In a sound document that is no leaf, the trees of all entries are sound. -/
theorem Sound.of_mem_document {document : Document} (sound : (ofJson (.object document)).Sound)
    (leafless : isLeafObject (.object document) = false) :
    ∀ entry ∈ document, (ofJson entry.2).Sound := by
  rw [ofJson] at sound
  cases shaped : shape document with
  | leaf type value =>
      rw [isLeafObject_of_shape shaped] at leafless
      exact absurd leafless.symm Bool.false_ne_true
  | malformed malformation =>
      rw [shaped] at sound
      exact absurd sound (not_sound_malformed _ malformation)
  | container =>
      rw [shaped] at sound
      exact (sound_container_iff document).mp sound

end Node

namespace Theme

theorem Progress.name_ne {event : Event} (progress : Progress event) :
    event.name ≠ "token_unresolvable" := by
  cases progress <;> simp [Event.name]

/-- The walk over a section with a sound tree reports no malformed node. -/
theorem walk_name_ne {settings : Settings} {document : Document} {pass : ThemePass}
    (sound : (Node.container (document.tokens (settings.sectionKey pass.path))).Sound) :
    ∀ event ∈ (walk settings document pass).events, event.name ≠ "token_unresolvable" := by
  have none := Resolve.diagnostics_node_le pass.path
    (.container (document.tokens (settings.sectionKey pass.path)))
  rw [sound.diagnostics_eq_nil, Multiset.coe_nil, Multiset.le_zero, Multiset.coe_eq_zero,
    Resolve.node, Logged.diagnostics_map, Logged.diagnostics, List.filter_eq_nil_iff] at none
  intro event reported
  have ignored := none event reported
  cases event with
  | formSiblingsIgnored path keys => simp [Event.name]
  | _ => exact absurd rfl ignored

end Theme

namespace Document

theorem sound_tokens {document : Document} (sound : ∀ entry ∈ document, (Node.ofJson entry.2).Sound)
    (key : String) : (Node.container (document.tokens key)).Sound := by
  unfold tokens
  cases found : Fields.get? document key with
  | none => exact .container nofun
  | some raw => exact (sound (key, raw) (Fields.mem_of_get?_eq_some found)).children

end Document

namespace Validation

/-- A regular document is valid just if its tree is sound.  If it is valid and no leaf, then its
theme is made without a report of a malformed node. -/
theorem validate_agrees_with_ofJson :
    (∀ (value : Json) (journal : Journal), value.Regular →
      (Generation.validate value journal = (.ok .valid, journal) ↔ (Node.ofJson value).Sound)) ∧
    ∀ (settings : Settings) (document : Document) (journal : Journal),
      (Json.object document).Regular → Node.isLeafObject (.object document) = false →
      Generation.validate (.object document) journal = (.ok .valid, journal) →
      (Theme.ofDocument settings document).RecordsOnly fun event =>
        event.name ≠ "token_unresolvable" := by
  have agree : ∀ (value : Json) (journal : Journal), value.Regular →
      (Generation.validate value journal = (.ok .valid, journal) ↔
        (Node.ofJson value).Sound) := by
    intro value journal regular
    rw [Generation.validate_eq_valid_iff, verdict_eq_valid_iff,
      firstAnomaly_eq_none_iff_sound regular]
  refine ⟨agree, ?_⟩
  intro settings document journal regular leafless valid
  have sound := ((agree _ journal regular).mp valid).of_mem_document leafless
  apply (Theme.recordsOnly_ofDocument settings document).mono
  rintro event (progress | ⟨pass, reported⟩)
  · exact progress.name_ne
  · exact Theme.walk_name_ne (Document.sound_tokens sound _) event reported

/-- A section with a color and a shadow. -/
def soundSection : Json :=
  .object [("accent", .leaf "color" (.str "red")),
    ("card", .leaf "boxShadow" (Shadow.offsetBy "0" "1"))]

theorem soundSection_regular : soundSection.Regular := by
  have leaf : ∀ type value, (Json.leaf type value).Regular := fun type value =>
    .leaf (by decide : themesKey ∉ [typeKey, valueKey]) rfl
      (by decide : valueKey ∈ [typeKey, valueKey]) rfl
  refine .object (by decide) rfl (by decide) ?_
  exact List.forall_mem_cons.mpr ⟨leaf _ _, List.forall_mem_singleton.mpr (leaf _ _)⟩

/-- A section with a null. -/
def nullSection : Json := .object [("gap", .null)]

/-- A document with the sound section is valid, and its theme is made without a report of a
malformed node.  A document with the section with a null is not sound. -/
theorem soundSection_is_valid_and_nullSection_is_not :
    (Node.ofJson (.object [("aura/primitive", soundSection)])).Sound ∧
    ¬(Node.ofJson (.object [("aura/primitive", nullSection)])).Sound ∧
    ∃ settings, Settings.ofEntries [] = .ok settings ∧
      (Theme.ofDocument settings [("aura/primitive", soundSection)]).RecordsOnly fun event =>
        event.name ≠ "token_unresolvable" := by
  have regular : ∀ part, part.Regular → (Json.object [("aura/primitive", part)]).Regular :=
    fun part regular => .object (by decide : themesKey ∉ ["aura/primitive"]) rfl
      (by decide : ∀ key ∈ ["aura/primitive"], Text.isNumeral key = false)
      (List.forall_mem_singleton.mpr regular)
  have soundRegular := regular soundSection soundSection_regular
  have nullRegular := regular nullSection
    (.object (by decide) rfl (by decide) (List.forall_mem_singleton.mpr .null))
  refine ⟨?_, ?_, ?_⟩
  · exact (validate_agrees_with_ofJson.1 _ .empty soundRegular).mp rfl
  · exact mt (validate_agrees_with_ofJson.1 _ .empty nullRegular).mpr nofun
  · exact ⟨_, rfl, validate_agrees_with_ofJson.2 _ _ .empty soundRegular rfl rfl⟩

/-- A leaf with a color that is a document with the section with a null as well. -/
def leafDocument : Document :=
  [(typeKey, .str "color"), (valueKey, .str "red"), ("aura/primitive", nullSection)]

/-- The leaf is regular and valid as a document, and yet its theme reports the null. -/
theorem leafDocument_is_valid_and_reports_null :
    (Json.object leafDocument).Regular ∧
    (∀ journal, Generation.validate (.object leafDocument) journal = (.ok .valid, journal)) ∧
    ∃ settings, Settings.ofEntries [] = .ok settings ∧
      ¬(Theme.ofDocument settings leafDocument).RecordsOnly fun event =>
        event.name ≠ "token_unresolvable" := by
  refine ⟨.leaf (by decide) rfl (by decide) rfl, fun journal => rfl, _, rfl, ?_⟩
  intro records
  exact records.of_empty _ List.mem_cons_self rfl

end Validation
end DesignTokens
