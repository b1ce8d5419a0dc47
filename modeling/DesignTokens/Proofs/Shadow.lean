import DesignTokens.Proofs.Fields
import DesignTokens.Validation

/-!
# Shadow values

A complete descriptor has both offsets and names the kind that is rendered.  A shadow value is a
complete descriptor, or a collection of them that is not empty.  A descriptor renders to its own
style text and a collection to the style texts of all its members.  The exception is an object of
descriptors one of which is called `x` or `y`: it passes for a descriptor itself, and the members
that are called like fields are written as they stand.
-/

namespace DesignTokens

namespace Json

theorem isText_iff (value : Json) (text : String) :
    value.isText text = true ↔ value = .str text := by
  unfold isText
  split
  · simp
  · rename_i other
    simpa using other text

end Json

namespace Shadow

/-! ## Complete descriptors -/

/-- A value is a descriptor with both offsets. -/
inductive Complete : Json → Prop
  /-- An object with two offsets and the kind that is rendered. -/
  | object {entries : Fields Json} (x : "x" ∈ Fields.keys entries) (y : "y" ∈ Fields.keys entries)
      (type : Fields.get? entries "type" = some (.str dropShadow)) : Complete (.object entries)

/-- The members of a collection, in its order. -/
def members : Json → List Json
  | .list items => items
  | .object entries => Fields.values entries
  | _ => []

/-- Whether a value is an object with an entry that is called like an offset. -/
def namesOffset : Json → Bool
  | .object entries => Fields.has entries "x" || Fields.has entries "y"
  | _ => false

theorem isDropShadow_iff (entries : Fields Json) :
    isDropShadow entries = true ↔ Fields.get? entries "type" = some (.str dropShadow) := by
  unfold isDropShadow
  cases Fields.get? entries "type" with
  | none => simp
  | some type => rw [Json.isText_iff, Option.some.injEq]

theorem isComplete_iff (value : Json) : isComplete value = true ↔ Complete value := by
  cases value with
  | object entries =>
      simp only [isComplete, Bool.and_eq_true, Fields.has_eq_true_iff, isDropShadow_iff]
      constructor
      · rintro ⟨⟨x, y⟩, type⟩
        exact .object x y type
      · rintro ⟨x, y, type⟩
        exact ⟨⟨x, y⟩, type⟩
  | _ => exact ⟨nofun, nofun⟩

/-- A complete descriptor describes a shadow. -/
theorem Complete.exists_descriptor? {value : Json} (complete : Complete value) :
    ∃ shadow, descriptor? value = some shadow := by
  obtain ⟨-, -, type⟩ := complete
  exact ⟨_, if_pos ((isDropShadow_iff _).mpr type)⟩

/-- Complete descriptors describe a row of shadows. -/
theorem exists_descriptors {values : List Json} (complete : ∀ value ∈ values, Complete value) :
    ∃ shadows : List Shadow, values.map descriptor? = shadows.map some := by
  induction values with
  | nil => exact ⟨[], rfl⟩
  | cons value values ih =>
      obtain ⟨here, others⟩ := List.forall_mem_cons.mp complete
      obtain ⟨shadow, described⟩ := here.exists_descriptor?
      obtain ⟨shadows, rest⟩ := ih others
      exact ⟨shadow :: shadows, by rw [List.map_cons, List.map_cons, described, rest]⟩

end Shadow

namespace Validation

/-- A shadow value is a complete descriptor, or a collection of them with at least one member. -/
theorem isShadowValue_iff (value : Json) :
    isShadowValue value = true ↔
      Shadow.Complete value ∨
        Shadow.members value ≠ [] ∧ ∀ member ∈ Shadow.members value, Shadow.Complete member := by
  cases value with
  | null => simp [isShadowValue, Shadow.members, Shadow.isComplete_iff]
  | scalar value => simp [isShadowValue, Shadow.members, Shadow.isComplete_iff]
  | list items => simp [isShadowValue, Shadow.members, Shadow.isComplete_iff]
  | object entries =>
      have nonempty : Fields.values entries ≠ [] ↔ entries ≠ [] := by simp [Fields.values]
      simp [isShadowValue, Shadow.members, Shadow.isComplete_iff, nonempty]

end Validation

namespace Shadow

/-! ## Rendering -/

theorem render?_of_complete {value : Json} (complete : Complete value) {shadow : Shadow}
    (described : descriptor? value = some shadow) : render? value = some shadow.css := by
  obtain ⟨x, -, type⟩ := complete
  have kind := (isDropShadow_iff _).mpr type
  rw [descriptor?, if_pos kind, Option.some.injEq] at described
  rw [render?, kind, Bool.or_true, if_pos rfl, described]

theorem joined_eq {values : List Json} {shadows : List Shadow}
    (described : values.map descriptor? = shadows.map some) :
    joined values = String.intercalate ", " (shadows.map css) := by
  have texts : (values.map descriptor?).filterMap (Option.map css) = shadows.map css := by
    rw [described, List.filterMap_map, ← List.filterMap_eq_map]
    rfl
  rw [joined, ← texts, List.filterMap_map]
  rfl

/-- A collection that is no descriptor and has no entry called like an offset is joined. -/
theorem render?_of_collection {value : Json} (incomplete : ¬Complete value)
    (nonempty : members value ≠ []) (complete : ∀ member ∈ members value, Complete member)
    (unnamed : namesOffset value = false) : render? value = some (joined (members value)) := by
  cases value with
  | null => exact absurd rfl nonempty
  | scalar value => exact absurd rfl nonempty
  | list items => rfl
  | object entries =>
      have kind : isDropShadow entries = false := by
        rw [← Bool.not_eq_true, isDropShadow_iff]
        intro type
        -- The entry called `type` is a member, and a descriptor is no text.
        have member : Json.str dropShadow ∈ members (.object entries) :=
          List.mem_map_of_mem (Fields.mem_of_get?_eq_some type)
        exact nomatch complete _ member
      rw [namesOffset] at unnamed
      rw [render?, unnamed, kind]
      rfl

/-- The fields of a descriptor in the order in which they are rendered. -/
def fieldNames : List String := ["x", "y", "blur", "spread", "color"]

theorem parts_ofEntries (entries : Fields Json) :
    (ofEntries entries).parts = fieldNames.map (fieldText entries) := rfl

/-- An object of descriptors is rendered like a descriptor if one of them is called like an offset:
the members that are called like fields are written one after another. -/
theorem render?_of_namesOffset {entries : Fields Json}
    (complete : ∀ member ∈ members (.object entries), Complete member)
    (named : namesOffset (.object entries) = true) :
    render? (.object entries) = some (String.intercalate " "
      ((fieldNames.filterMap (Fields.get? entries)).map Json.describe)) := by
  have text : ∀ name, fieldText entries name = (Fields.get? entries name).map Json.describe := by
    intro name
    cases found : Fields.get? entries name with
    | none => simp [fieldText, found]
    | some member =>
        obtain ⟨-, -, -⟩ := complete member (List.mem_map_of_mem (Fields.mem_of_get?_eq_some found))
        simp [fieldText, found, Json.toOption]
  rw [namesOffset] at named
  rw [render?, named, Bool.true_or, if_pos rfl, css, parts_ofEntries, List.filterMap_map,
    List.map_filterMap]
  simp only [Function.comp_def, id_eq, text]

/-- How a shadow value renders: a descriptor as its own style text, a collection as the style texts
of all its members in order, unless it is an object with a member called `x` or `y`. -/
theorem render?_of_isShadowValue {value : Json} (accepted : Validation.isShadowValue value = true) :
    (Complete value →
      ∃ shadow, descriptor? value = some shadow ∧ render? value = some shadow.css) ∧
    (¬Complete value → namesOffset value = false →
      ∃ shadows : List Shadow, shadows ≠ [] ∧ (members value).map descriptor? = shadows.map some ∧
        render? value = some (String.intercalate ", " (shadows.map css))) ∧
    (¬Complete value → namesOffset value = true →
      ∃ entries, value = .object entries ∧ render? value = some (String.intercalate " "
        ((fieldNames.filterMap (Fields.get? entries)).map Json.describe))) := by
  rw [Validation.isShadowValue_iff] at accepted
  refine ⟨?_, ?_, ?_⟩
  · intro complete
    obtain ⟨shadow, described⟩ := complete.exists_descriptor?
    exact ⟨shadow, described, render?_of_complete complete described⟩
  · intro incomplete unnamed
    obtain ⟨nonempty, complete⟩ := accepted.resolve_left incomplete
    obtain ⟨shadows, described⟩ := exists_descriptors complete
    refine ⟨shadows, ?_, described, ?_⟩
    · rintro rfl
      exact nonempty (List.map_eq_nil_iff.mp described)
    · rw [render?_of_collection incomplete nonempty complete unnamed, joined_eq described]
  · intro incomplete named
    obtain ⟨-, complete⟩ := accepted.resolve_left incomplete
    cases value with
    | object entries => exact ⟨entries, rfl, render?_of_namesOffset complete named⟩
    | _ => exact absurd named Bool.false_ne_true

/-- The descriptor with two offsets and nothing else. -/
def offsetBy (x y : String) : Json :=
  .object [("x", .str x), ("y", .str y), ("type", .str dropShadow)]

/-- A shadow renders, and so does a list of two.  Of two shadows called `x` and `outer`, one is
written as it stands and the other is lost. -/
theorem list_renders_and_shadow_called_x_does_not :
    (∃ shadow, descriptor? (offsetBy "0" "1") = some shadow ∧
      render? (offsetBy "0" "1") = some shadow.css) ∧
    (∃ shadows : List Shadow, shadows ≠ [] ∧
      [offsetBy "0" "1", offsetBy "2" "3"].map descriptor? = shadows.map some ∧
      render? (.list [offsetBy "0" "1", offsetBy "2" "3"]) =
        some (String.intercalate ", " (shadows.map css))) ∧
    (∃ entries, Json.object [("x", offsetBy "0" "1"), ("outer", offsetBy "2" "3")] =
        .object entries ∧
      render? (.object [("x", offsetBy "0" "1"), ("outer", offsetBy "2" "3")]) =
        some (String.intercalate " "
          ((fieldNames.filterMap (Fields.get? entries)).map Json.describe))) ∧
    render? (.object [("x", offsetBy "0" "1"), ("outer", offsetBy "2" "3")]) ≠
      some "0 1, 2 3" := by
  have single : Validation.isShadowValue (offsetBy "0" "1") = true := by decide
  have list : Validation.isShadowValue (.list [offsetBy "0" "1", offsetBy "2" "3"]) = true := by
    decide
  have named : Validation.isShadowValue
      (.object [("x", offsetBy "0" "1"), ("outer", offsetBy "2" "3")]) = true := by decide
  refine ⟨?_, ?_, ?_, by decide⟩
  · exact (render?_of_isShadowValue single).1 ((isComplete_iff _).mp (by decide))
  · exact (render?_of_isShadowValue list).2.1 nofun (by decide)
  · refine (render?_of_isShadowValue named).2.2 ?_ (by decide)
    rw [← isComplete_iff]
    decide

end Shadow
end DesignTokens
