import DesignTokens.Generation
import DesignTokens.Proofs.Log.Journal
import DesignTokens.Proofs.Shadow
import DesignTokens.Proofs.Token.Tree

/-!
# The first anomaly

A validation visits a document in document order.  It looks into an object only if that has no theme
list, no type and no value, and it passes over the entries whose names are numerals.  What is wrong
with a visited value does not depend on the values around it, and the outcome of the validation is
what is wrong with the first value of which something is wrong.
-/

namespace DesignTokens

namespace Json

/-! ## Visits -/

/-- Whether an object has neither a theme list nor a type nor a value. -/
def isOpen (entries : Fields Json) : Bool :=
  !Fields.has entries themesKey && !Fields.has entries typeKey && !Fields.has entries valueKey

mutual

/-- The values that a validation visits in a value at a path, in document order, each with its
path. -/
def visits (path : TokenPath) : Json → List (TokenPath × Json)
  | .null => [(path, .null)]
  | .scalar value => [(path, .scalar value)]
  | .list items => [(path, .list items)]
  | .object entries =>
      (path, .object entries) :: if isOpen entries then entryVisits path entries else []

/-- The values that a validation visits in the entries of an object at a path. -/
def entryVisits (path : TokenPath) : List (String × Json) → List (TokenPath × Json)
  | [] => []
  | (key, value) :: rest =>
      (if Text.isNumeral key then [] else visits (path ++ [key]) value) ++ entryVisits path rest

end

/-- The value that a row of keys leads to. -/
def follow? : Json → TokenPath → Option Json
  | value, [] => some value
  | value, key :: keys => (value.get? key).bind fun part => follow? part keys

theorem mem_entryVisits {path : TokenPath} {entries : List (String × Json)}
    {visit : TokenPath × Json} (member : visit ∈ entryVisits path entries) :
    ∃ entry ∈ entries, visit ∈ visits (path ++ [entry.1]) entry.2 := by
  induction entries with
  | nil => simp [entryVisits] at member
  | cons entry rest ih =>
      rw [entryVisits, List.mem_append] at member
      rcases member with here | later
      · split at here
        · simp at here
        · exact ⟨entry, List.mem_cons_self, here⟩
      · obtain ⟨other, listed, visited⟩ := ih later
        exact ⟨other, List.mem_cons_of_mem entry listed, visited⟩

private theorem follow?_root {path : TokenPath} {value : Json} {visit : TokenPath × Json}
    (root : visit = (path, value)) :
    ∃ keys, visit.1 = path ++ keys ∧ value.follow? keys = some visit.2 := by
  subst root
  exact ⟨[], (List.append_nil path).symm, rfl⟩

/-- In a keyed document, the path of a visit leads to the visited value. -/
theorem follow?_of_mem_visits {document : Json} (keyed : document.isKeyed = true)
    {path : TokenPath} {visit : TokenPath × Json} (member : visit ∈ document.visits path) :
    ∃ keys, visit.1 = path ++ keys ∧ document.follow? keys = some visit.2 := by
  induction document using Json.induction generalizing path with
  | null => exact follow?_root (List.mem_singleton.mp member)
  | scalar value => exact follow?_root (List.mem_singleton.mp member)
  | list items => exact follow?_root (List.mem_singleton.mp member)
  | object entries ih =>
      obtain ⟨distinct, keyed⟩ := (isKeyed_object entries).mp keyed
      rw [visits] at member
      rcases List.mem_cons.mp member with root | below
      · exact follow?_root root
      · split at below
        · obtain ⟨entry, listed, visited⟩ := mem_entryVisits below
          obtain ⟨keys, extended, followed⟩ := ih entry listed (keyed entry listed) visited
          refine ⟨entry.1 :: keys, by rw [extended, List.append_assoc]; rfl, ?_⟩
          rw [follow?, Json.get?, Fields.get?_eq_some_of_mem distinct listed, Option.bind_some,
            followed]
        · exact absurd below List.not_mem_nil

end Json

/-! ## What is wrong with a value -/

namespace Validation

/-- A value has a defect of its own. -/
inductive HasDefect : Json → Defect → Prop
  /-- A null is no object. -/
  | null : HasDefect .null .notAnObject
  /-- A scalar is no object. -/
  | scalar (value : Scalar) : HasDefect (.scalar value) .notAnObject
  /-- An object without a theme list has a value and no type. -/
  | valueWithoutType {entries : Fields Json} (unthemed : themesKey ∉ Fields.keys entries)
      (untyped : typeKey ∉ Fields.keys entries) (valued : valueKey ∈ Fields.keys entries) :
      HasDefect (.object entries) .valueWithoutType
  /-- An object without a theme list has a type and no value. -/
  | typeWithoutValue {entries : Fields Json} (unthemed : themesKey ∉ Fields.keys entries)
      (typed : typeKey ∈ Fields.keys entries) (unvalued : valueKey ∉ Fields.keys entries) :
      HasDefect (.object entries) .typeWithoutValue
  /-- An object without a theme list has a shadow type, and a value that is neither a complete
  descriptor nor a collection of them with at least one member. -/
  | incompleteShadow {entries : Fields Json} {name : String} {value : Json}
      (unthemed : themesKey ∉ Fields.keys entries)
      (typed : Fields.get? entries typeKey = some (.str name)) (shadow : name ∈ Shadow.types)
      (valued : Fields.get? entries valueKey = some value) (single : ¬Shadow.Complete value)
      (collection : ¬(Shadow.members value ≠ [] ∧
        ∀ member ∈ Shadow.members value, Shadow.Complete member)) :
      HasDefect (.object entries) .incompleteShadow

/-- A value is an object without a theme list that has a value and a type, but whose type is a list
or an object. -/
inductive HasCompositeType : Json → Json → Prop
  /-- The type is a list. -/
  | list {entries : Fields Json} {items : List Json} (unthemed : themesKey ∉ Fields.keys entries)
      (typed : Fields.get? entries typeKey = some (.list items))
      (valued : valueKey ∈ Fields.keys entries) : HasCompositeType (.object entries) (.list items)
  /-- The type is an object. -/
  | object {entries parts : Fields Json} (unthemed : themesKey ∉ Fields.keys entries)
      (typed : Fields.get? entries typeKey = some (.object parts))
      (valued : valueKey ∈ Fields.keys entries) : HasCompositeType (.object entries) (.object parts)

/-- Something is wrong with a value itself. -/
inductive HasAnomaly : Json → Anomaly → Prop
  /-- A defect. -/
  | defect {value : Json} {defect : Defect} (defective : HasDefect value defect) :
      HasAnomaly value (.defect defect)
  /-- A type that cannot be looked up. -/
  | compositeType {value type : Json} (composite : HasCompositeType value type) :
      HasAnomaly value (.compositeType type)

/-- The anomaly of a value itself. -/
def ownAnomaly : Json → Option Anomaly
  | .null => some (.defect .notAnObject)
  | .scalar _ => some (.defect .notAnObject)
  | .list _ => none
  | .object entries =>
      if Fields.has entries themesKey then none
      else
        match Node.shape entries with
        | .leaf type value => leafAnomaly type value
        | .malformed .valueWithoutType => some (.defect .valueWithoutType)
        | .malformed _ => some (.defect .typeWithoutValue)
        | .container => none

theorem isOpen_iff (entries : Fields Json) :
    Json.isOpen entries = true ↔
      themesKey ∉ Fields.keys entries ∧ Node.shape entries = .container := by
  simp [Json.isOpen, Node.shape_eq_container_iff, Fields.has_eq_false_iff, and_assoc]

theorem leafAnomaly_of_shadow {name : String} {value : Json} (shadow : name ∈ Shadow.types)
    (refused : isShadowValue value = false) :
    leafAnomaly (.str name) value = some (.defect .incompleteShadow) := by
  simp [leafAnomaly, shadow, refused]

/-- A leaf whose anomaly is found has a shadow type and a refused value, or a composite type. -/
theorem cases_leafAnomaly {type value : Json} {anomaly : Anomaly}
    (found : leafAnomaly type value = some anomaly) :
    (anomaly = .defect .incompleteShadow ∧ isShadowValue value = false ∧
      ∃ name ∈ Shadow.types, type = .str name) ∨
    (anomaly = .compositeType type ∧
      ((∃ items, type = .list items) ∨ ∃ parts, type = .object parts)) := by
  unfold leafAnomaly at found
  split at found
  · exact .inr ⟨(Option.some.inj found).symm, .inl ⟨_, rfl⟩⟩
  · exact .inr ⟨(Option.some.inj found).symm, .inr ⟨_, rfl⟩⟩
  · split at found
    · rename_i name refused
      rw [Bool.and_eq_true, List.contains_iff_mem, Bool.not_eq_true'] at refused
      exact .inl ⟨(Option.some.inj found).symm, refused.2, name, refused.1, rfl⟩
    · exact absurd found nofun
  · exact absurd found nofun

theorem ownAnomaly_object {entries : Fields Json} (unthemed : themesKey ∉ Fields.keys entries) :
    ownAnomaly (.object entries) =
      match Fields.get? entries typeKey, Fields.get? entries valueKey with
      | some type, some value => leafAnomaly type value
      | none, some _ => some (.defect .valueWithoutType)
      | some _, none => some (.defect .typeWithoutValue)
      | none, none => none := by
  rw [← Fields.has_eq_false_iff] at unthemed
  rw [ownAnomaly, unthemed, Node.shape]
  cases Fields.get? entries typeKey <;> cases Fields.get? entries valueKey <;> rfl

theorem hasAnomaly_of_ownAnomaly {value : Json} {anomaly : Anomaly}
    (own : ownAnomaly value = some anomaly) : HasAnomaly value anomaly := by
  cases value with
  | null => exact Option.some.inj own ▸ .defect .null
  | scalar value => exact Option.some.inj own ▸ .defect (.scalar value)
  | list items => exact absurd own nofun
  | object entries =>
      by_cases themed : themesKey ∈ Fields.keys entries
      · rw [ownAnomaly, if_pos ((Fields.has_eq_true_iff _ _).mpr themed)] at own
        exact absurd own nofun
      · rw [ownAnomaly_object themed] at own
        split at own
        · rename_i type value typed valued
          have present := (Fields.mem_keys_iff_exists entries valueKey).mpr ⟨value, valued⟩
          rcases cases_leafAnomaly own with
            ⟨rfl, refused, name, shadow, rfl⟩ | ⟨rfl, ⟨items, rfl⟩ | ⟨parts, rfl⟩⟩
          · rw [← Bool.not_eq_true, isShadowValue_iff, not_or] at refused
            exact .defect (.incompleteShadow themed typed shadow valued refused.1 refused.2)
          · exact .compositeType (.list themed typed present)
          · exact .compositeType (.object themed typed present)
        · rename_i value untyped valued
          rw [Fields.get?_eq_none_iff_not_mem] at untyped
          have present := (Fields.mem_keys_iff_exists entries valueKey).mpr ⟨value, valued⟩
          exact Option.some.inj own ▸ .defect (.valueWithoutType themed untyped present)
        · rename_i type typed unvalued
          rw [Fields.get?_eq_none_iff_not_mem] at unvalued
          have present := (Fields.mem_keys_iff_exists entries typeKey).mpr ⟨type, typed⟩
          exact Option.some.inj own ▸ .defect (.typeWithoutValue themed present unvalued)
        · exact absurd own nofun

theorem ownAnomaly_of_hasDefect {value : Json} {defect : Defect}
    (defective : HasDefect value defect) : ownAnomaly value = some (.defect defect) := by
  cases defective with
  | null => rfl
  | scalar value => rfl
  | valueWithoutType unthemed untyped valued =>
      obtain ⟨value, valued⟩ := (Fields.mem_keys_iff_exists _ _).mp valued
      rw [ownAnomaly_object unthemed, (Fields.get?_eq_none_iff_not_mem _ _).mpr untyped, valued]
  | typeWithoutValue unthemed typed unvalued =>
      obtain ⟨type, typed⟩ := (Fields.mem_keys_iff_exists _ _).mp typed
      rw [ownAnomaly_object unthemed, typed, (Fields.get?_eq_none_iff_not_mem _ _).mpr unvalued]
  | @incompleteShadow entries name value unthemed typed shadow valued single collection =>
      have refused : isShadowValue value = false := by
        rw [← Bool.not_eq_true, isShadowValue_iff, not_or]
        exact ⟨single, collection⟩
      rw [ownAnomaly_object unthemed, typed, valued]
      exact leafAnomaly_of_shadow shadow refused

theorem ownAnomaly_of_hasCompositeType {value type : Json}
    (composite : HasCompositeType value type) : ownAnomaly value = some (.compositeType type) := by
  cases composite with
  | list unthemed typed valued =>
      obtain ⟨value, valued⟩ := (Fields.mem_keys_iff_exists _ _).mp valued
      rw [ownAnomaly_object unthemed, typed, valued]
      rfl
  | object unthemed typed valued =>
      obtain ⟨value, valued⟩ := (Fields.mem_keys_iff_exists _ _).mp valued
      rw [ownAnomaly_object unthemed, typed, valued]
      rfl

theorem ownAnomaly_eq_some_iff (value : Json) (anomaly : Anomaly) :
    ownAnomaly value = some anomaly ↔ HasAnomaly value anomaly := by
  constructor
  · exact hasAnomaly_of_ownAnomaly
  · rintro (defective | composite)
    · exact ownAnomaly_of_hasDefect defective
    · exact ownAnomaly_of_hasCompositeType composite

theorem ownAnomaly_eq_none_iff (value : Json) :
    ownAnomaly value = none ↔ ∀ anomaly, ¬HasAnomaly value anomaly := by
  simp only [Option.eq_none_iff_forall_ne_some, ne_eq, ownAnomaly_eq_some_iff]

theorem forall_not_hasAnomaly_iff (value : Json) :
    (∀ anomaly, ¬HasAnomaly value anomaly) ↔
      (∀ defect, ¬HasDefect value defect) ∧ ∀ type, ¬HasCompositeType value type := by
  constructor
  · exact fun right =>
      ⟨fun _ defective => right _ (.defect defective), fun _ composite =>
        right _ (.compositeType composite)⟩
  · rintro ⟨flawless, plain⟩ _ (defective | composite)
    · exact flawless _ defective
    · exact plain _ composite

/-! ## The first of them -/

/-- The anomaly of a visited value, with the path of the visit. -/
def located (visit : TokenPath × Json) : Option (TokenPath × Anomaly) :=
  (ownAnomaly visit.2).map fun anomaly => (visit.1, anomaly)

theorem located_eq_some_iff (visit : TokenPath × Json) (path : TokenPath) (anomaly : Anomaly) :
    located visit = some (path, anomaly) ↔ visit.1 = path ∧ HasAnomaly visit.2 anomaly := by
  simp [located, ownAnomaly_eq_some_iff, and_comm]

theorem located_eq_none_iff (visit : TokenPath × Json) :
    located visit = none ↔ ∀ anomaly, ¬HasAnomaly visit.2 anomaly := by
  rw [located, Option.map_eq_none_iff, ownAnomaly_eq_none_iff]

theorem firstAnomalyIn_eq_findSome? {path : TokenPath} {entries : List (String × Json)}
    (parts : ∀ entry ∈ entries, ∀ path,
      firstAnomaly path entry.2 = (entry.2.visits path).findSome? located) :
    firstAnomalyIn path entries = (Json.entryVisits path entries).findSome? located := by
  induction entries with
  | nil => rfl
  | cons entry rest ih =>
      obtain ⟨here, others⟩ := List.forall_mem_cons.mp parts
      rw [firstAnomalyIn, Json.entryVisits, List.findSome?_append, ← ih others]
      split
      · rfl
      · rw [here]

/-- A validation finds the first anomaly among the visited values. -/
theorem firstAnomaly_eq_findSome? (path : TokenPath) (value : Json) :
    firstAnomaly path value = (value.visits path).findSome? located := by
  induction value using Json.induction generalizing path with
  | null => rfl
  | scalar value => rfl
  | list items => rfl
  | object entries ih =>
      have inside : firstAnomalyIn path entries =
          (Json.entryVisits path entries).findSome? located :=
        firstAnomalyIn_eq_findSome? fun entry member path => ih entry member path
      rw [firstAnomaly, Json.visits, List.findSome?_cons, located, ownAnomaly]
      cases themed : Fields.has entries themesKey with
      | true => simp [Json.isOpen, themed]
      | false =>
          cases shaped : Node.shape entries with
          | leaf type value =>
              have closed : Json.isOpen entries = false := by
                rw [← Bool.not_eq_true, isOpen_iff, shaped]
                exact fun opened => absurd opened.2 nofun
              cases found : leafAnomaly type value <;> simp [closed, found]
          | malformed malformation => cases malformation <;> rfl
          | container =>
              have opened : Json.isOpen entries = true :=
                (isOpen_iff entries).mpr ⟨(Fields.has_eq_false_iff _ _).mp themed, shaped⟩
              simp [opened, inside]

/-- Something is wrong with the value at a path of a document, and with no value that is visited
before it. -/
def FirstAnomaly (document : Json) (path : TokenPath) (value : Json) (anomaly : Anomaly) : Prop :=
  ∃ before after, document.visits [] = before ++ (path, value) :: after ∧
    HasAnomaly value anomaly ∧ ∀ visit ∈ before, ∀ other, ¬HasAnomaly visit.2 other

theorem firstAnomaly_of_first {document value : Json} {path : TokenPath} {anomaly : Anomaly}
    (first : FirstAnomaly document path value anomaly) :
    firstAnomaly [] document = some (path, anomaly) := by
  obtain ⟨before, after, visits, wrong, right⟩ := first
  rw [firstAnomaly_eq_findSome?, List.findSome?_eq_some_iff]
  refine ⟨before, (path, value), after, visits, ?_, ?_⟩
  · exact (located_eq_some_iff _ _ _).mpr ⟨rfl, wrong⟩
  · exact fun visit member => (located_eq_none_iff visit).mpr (right visit member)

theorem exists_first_of_firstAnomaly {document : Json} {path : TokenPath} {anomaly : Anomaly}
    (found : firstAnomaly [] document = some (path, anomaly)) :
    ∃ value, FirstAnomaly document path value anomaly := by
  rw [firstAnomaly_eq_findSome?, List.findSome?_eq_some_iff] at found
  obtain ⟨before, ⟨other, value⟩, after, visits, here, earlier⟩ := found
  obtain ⟨rfl, wrong⟩ := (located_eq_some_iff _ _ _).mp here
  exact ⟨value, before, after, visits, wrong, fun visit member =>
    (located_eq_none_iff visit).mp (earlier visit member)⟩

theorem firstAnomaly_eq_none_iff (document : Json) :
    firstAnomaly [] document = none ↔
      ∀ visit ∈ document.visits [], ∀ anomaly, ¬HasAnomaly visit.2 anomaly := by
  simp only [firstAnomaly_eq_findSome?, List.findSome?_eq_none_iff, located_eq_none_iff]

/-! ## The outcome -/

theorem verdict_of_defect {document : Json} {path : TokenPath} {defect : Defect}
    (found : firstAnomaly [] document = some (path, .defect defect)) :
    verdict document = .ok (.invalid path defect.reason) := by
  rw [verdict, found]

theorem verdict_of_compositeType {document type : Json} {path : TokenPath}
    (found : firstAnomaly [] document = some (path, .compositeType type)) :
    verdict document = .error (.compositeType type.kind) := by
  rw [verdict, found]

theorem verdict_eq_error_iff (document : Json) (fault : Fault) :
    verdict document = .error fault ↔
      ∃ path value type, FirstAnomaly document path value (.compositeType type) ∧
        fault = .compositeType type.kind := by
  constructor
  · intro ended
    unfold verdict at ended
    split at ended
    · exact absurd ended nofun
    · exact absurd ended nofun
    · rename_i path type found
      obtain ⟨value, first⟩ := exists_first_of_firstAnomaly found
      exact ⟨path, value, type, first, (Except.error.inj ended).symm⟩
  · rintro ⟨path, value, type, first, rfl⟩
    exact verdict_of_compositeType (firstAnomaly_of_first first)

theorem verdict_eq_valid_iff (document : Json) :
    verdict document = .ok .valid ↔ firstAnomaly [] document = none := by
  constructor
  · intro valid
    cases found : firstAnomaly [] document with
    | none => rfl
    | some visit =>
        obtain ⟨path, defect | type⟩ := visit
        · exact absurd (valid.symm.trans (verdict_of_defect found)) nofun
        · exact absurd (valid.symm.trans (verdict_of_compositeType found)) nofun
  · intro none
    rw [verdict, none]

end Validation

namespace Generation

theorem validate_of_ok {document : Json} {verdict : Verdict}
    (judged : Validation.verdict document = .ok verdict) (journal : Journal) :
    validate document journal = (.ok verdict, journal.recordAll verdict.events) := by
  have ended : (ExceptT.mk (pure (Validation.verdict document)) : Journaled Verdict) journal =
      (.ok verdict, journal) := congrArg (·, journal) judged
  rw [validate, Journaled.bind_of_ok ended]
  rfl

theorem validate_of_error {document : Json} {fault : Fault}
    (refused : Validation.verdict document = .error fault) (journal : Journal) :
    validate document journal = (.error fault, journal) := by
  have ended : (ExceptT.mk (pure (Validation.verdict document)) : Journaled Verdict) journal =
      (.error fault, journal) := congrArg (·, journal) refused
  rw [validate, Journaled.bind_of_error ended]

theorem validate_eq_valid_iff (document : Json) (journal : Journal) :
    validate document journal = (.ok .valid, journal) ↔
      Validation.verdict document = .ok .valid := by
  constructor
  · intro valid
    cases judged : Validation.verdict document with
    | ok verdict =>
        rw [validate_of_ok judged, Prod.mk.injEq] at valid
        exact valid.1
    | error fault =>
        rw [validate_of_error judged, Prod.mk.injEq] at valid
        exact valid.1
  · exact fun judged => validate_of_ok judged journal

end Generation

namespace Validation

/-- The outcome of a validation.  It finds nothing if nothing is wrong with any visited value.  If
the first anomaly is a defect, it ends with the path and the reason of that defect, which it records
as one warning, and the path leads to the defective value.  If the first anomaly is a type that
cannot be looked up, it ends with a fault and records nothing. -/
theorem validate_reports_first_anomaly (document : Json) (journal : Journal) :
    (Generation.validate document journal = (.ok .valid, journal) ↔
      ∀ visit ∈ document.visits [],
        (∀ defect, ¬HasDefect visit.2 defect) ∧ ∀ type, ¬HasCompositeType visit.2 type) ∧
    (∀ path value defect, FirstAnomaly document path value (.defect defect) →
      (∃ event, event.name = "token_structure_invalid" ∧ event.level = .warning ∧
        event.data =
          [("path", .str (TokenPath.location path)), ("reason", .str defect.reason)] ∧
        Generation.validate document journal =
          (.ok (.invalid path defect.reason), journal.record event)) ∧
      (document.isKeyed = true → document.follow? path = some value)) ∧
    ∀ path value type, FirstAnomaly document path value (.compositeType type) →
      Generation.validate document journal = (.error (.compositeType type.kind), journal) := by
  refine ⟨?_, ?_, ?_⟩
  · rw [Generation.validate_eq_valid_iff, verdict_eq_valid_iff, firstAnomaly_eq_none_iff]
    simp only [forall_not_hasAnomaly_iff]
  · intro path value defect first
    have judged := verdict_of_defect (firstAnomaly_of_first first)
    refine ⟨⟨.structureInvalid path defect.reason, rfl, rfl, rfl, ?_⟩, ?_⟩
    · exact Generation.validate_of_ok judged journal
    · intro keyed
      obtain ⟨before, after, visits, -⟩ := first
      have member : (path, value) ∈ document.visits [] := by simp [visits]
      obtain ⟨keys, rfl, followed⟩ := Json.follow?_of_mem_visits keyed member
      exact followed
  · intro path value type first
    exact Generation.validate_of_error
      (verdict_of_compositeType (firstAnomaly_of_first first)) journal

/-- A document whose first defect lies behind a numeral, a list and an object. -/
def hiddenDefect : Json :=
  .object [("1", .null), ("sizes", .list []), ("color", .object [("dark", .object
    [(valueKey, .str "black")])]), ("shadow", .null)]

/-- A leaf whose type is a list. -/
def listTyped : Json := .object [(typeKey, .list []), (valueKey, .str "black")]

/-- The first defect is found behind a numeral, a list and an object.  A leaf whose type is a list
has no defect, and yet it is not valid. -/
theorem hidden_defect_is_found_and_list_type_is_a_fault :
    ((∃ event, event.name = "token_structure_invalid" ∧ event.level = .warning ∧
        event.data = [("path", .str (TokenPath.location ["color", "dark"])),
          ("reason", .str Defect.valueWithoutType.reason)] ∧
        Generation.validate hiddenDefect .empty =
          (.ok (.invalid ["color", "dark"] Defect.valueWithoutType.reason),
            Journal.empty.record event)) ∧
      hiddenDefect.follow? ["color", "dark"] = some (.object [(valueKey, .str "black")])) ∧
    Generation.validate listTyped .empty = (.error (.compositeType "list"), .empty) ∧
    (∀ visit ∈ listTyped.visits [], ∀ defect, ¬HasDefect visit.2 defect) := by
  have hidden : FirstAnomaly hiddenDefect ["color", "dark"] (.object [(valueKey, .str "black")])
      (.defect .valueWithoutType) := by
    refine ⟨[([], hiddenDefect), (["sizes"], .list []), (["color"], .object [("dark", .object
      [(valueKey, .str "black")])])], [(["shadow"], .null)], rfl, ?_, ?_⟩
    · exact (ownAnomaly_eq_some_iff _ _).mp rfl
    · simp only [List.forall_mem_cons, ← ownAnomaly_eq_none_iff]
      exact ⟨rfl, rfl, rfl, nofun⟩
  have typed : FirstAnomaly listTyped [] listTyped (.compositeType (.list [])) :=
    ⟨[], [], rfl, (ownAnomaly_eq_some_iff _ _).mp rfl, nofun⟩
  refine ⟨?_, ?_, ?_⟩
  · obtain ⟨recorded, followed⟩ :=
      (validate_reports_first_anomaly hiddenDefect .empty).2.1 _ _ _ hidden
    exact ⟨recorded, followed (by decide)⟩
  · exact (validate_reports_first_anomaly listTyped .empty).2.2 _ _ _ typed
  · intro visit member defect defective
    obtain rfl := List.mem_singleton.mp member
    exact absurd (ownAnomaly_of_hasDefect defective) nofun

end Validation
end DesignTokens
