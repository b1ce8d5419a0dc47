import DesignTokens.Proofs.Fields
import DesignTokens.Resolve.Tree

/-!
# Values without order

Two values are the same as unordered trees if every row of keys leads to the same in both: to an
inner object, to an equal value that is no object, or to nothing.  So objects are the same if they
have the same keys with the same values, whatever the order of their entries.
-/

namespace DesignTokens

namespace Json

/-- What a row of keys leads to: an inner object, of which only the existence is told, or a value
that is no object. -/
def outline : Json → List String → Option (Option Json)
  | .object _, [] => some none
  | value, [] => some (some value)
  | value, key :: keys => (value.get? key).bind fun inner => outline inner keys

/-- The same tree, if the order of entries does not count. -/
def SameTree (first second : Option Json) : Prop := first.map outline = second.map outline

/-! ## Objects -/

/-- Objects have the same outline if they have the same keys and under each of them values with the
same outline. -/
theorem outline_object_eq_iff (first second : Fields Json) :
    outline (.object first) = outline (.object second) ↔
      ∀ key, SameTree (Fields.get? first key) (Fields.get? second key) := by
  constructor
  · intro same key
    have below : ∀ keys, outline (.object first) (key :: keys) =
        outline (.object second) (key :: keys) := fun keys => congrFun same (key :: keys)
    simp only [outline, get?] at below
    unfold SameTree
    cases here : Fields.get? first key <;> cases there : Fields.get? second key <;>
      simp only [here, there, Option.bind_none, Option.bind_some] at below
    · rfl
    · rename_i value
      have nothing := below []
      cases value <;> simp [outline] at nothing
    · rename_i value
      have nothing := below []
      cases value <;> simp [outline] at nothing
    · exact congrArg some (funext below)
  · intro same
    funext keys
    cases keys with
    | nil => rfl
    | cons key keys =>
        have inner := congrArg (Option.bind · fun sight => sight keys) (same key)
        simpa only [outline, get?, Option.bind_map, Function.comp_def] using inner

theorem sameTree_object_iff (first second : Fields Json) :
    SameTree (some (.object first)) (some (.object second)) ↔
      ∀ key, SameTree (Fields.get? first key) (Fields.get? second key) := by
  rw [SameTree, Option.map_some, Option.map_some, Option.some_inj, outline_object_eq_iff]

/-- Only the empty object looks like the empty object. -/
theorem eq_of_sameTree_empty {value : Option Json} (same : SameTree (some (.object [])) value) :
    value = some (.object []) := by
  obtain ⟨value, rfl, alike⟩ := Option.map_eq_some_iff.mp same.symm
  cases value with
  | object entries =>
      cases entries with
      | nil => rfl
      | cons entry entries =>
          have missing := (outline_object_eq_iff _ _).mp alike.symm entry.1
          simp [SameTree, Fields.get?] at missing
  | _ => cases congrFun alike []

end Json

namespace Resolve

theorem substantial_of_ne {value : Option Json} (full : value ≠ some (.object [])) :
    substantial value = value := by
  unfold substantial
  split
  · exact absurd rfl full
  · rfl

/-- Whether a value counts as a token of its own does not depend on the order of entries. -/
theorem sameTree_substantial {first second : Option Json} (same : Json.SameTree first second) :
    Json.SameTree (substantial first) (substantial second) := by
  by_cases empty : first = some (.object [])
  · subst empty
    rw [Json.eq_of_sameTree_empty same]
    rfl
  · have full : second ≠ some (.object []) := by
      rintro rfl
      exact empty (Json.eq_of_sameTree_empty same.symm)
    rwa [substantial_of_ne empty, substantial_of_ne full]

end Resolve
end DesignTokens
