import DesignTokens.Proofs.Resolve.Walk

/-!
# Siblings

A walk over a container treats its children independently.  Two rows of children together give what
they give apart, the entries of the later row being assigned to those of the earlier one, and the
events are those of the one followed by those of the other.  So a walk is a running result, updated
with what each child gives when it is alone.
-/

namespace DesignTokens
namespace Resolve

/-- A walk over rows of children gives for two rows together what it gives for them apart. -/
structure SiblingWise {β : Type} (update : β → β → β) (start : β)
    (walk : Fields Node → Logged β) : Prop where
  /-- The result of the later row is assigned to that of the earlier one. -/
  value_append : ∀ first second,
    (walk (first ++ second)).value = update (walk first).value (walk second).value
  /-- The events of the later row follow those of the earlier one. -/
  events_append : ∀ first second,
    (walk (first ++ second)).events = (walk first).events ++ (walk second).events
  /-- The result is updated child by child with what each child gives alone. -/
  value_running : ∀ children, (walk children).value =
    children.foldl (fun result child => update result (walk [child]).value) start
  /-- The events are those of each child alone, in order. -/
  events_running : ∀ children, (walk children).events =
    children.flatMap fun child => (walk [child]).events

/-- A walk that joins rows goes child by child. -/
theorem SiblingWise.of_append {β : Type} {update : β → β → β} {start : β}
    {walk : Fields Node → Logged β} (nil : walk [] = pure start)
    (append : ∀ first second, walk (first ++ second) = (do
      let former ← walk first
      let latter ← walk second
      return update former latter)) : SiblingWise update start walk where
  value_append first second := by rw [append]; rfl
  events_append first second := by rw [append]; simp
  value_running children := by
    induction children using List.reverseRecOn with
    | nil => rw [nil]; rfl
    | append_singleton children child ih =>
        rw [List.foldl_append, List.foldl_cons, List.foldl_nil, ← ih, append]
        rfl
  events_running children := by
    induction children using List.reverseRecOn with
    | nil => rw [nil]; rfl
    | append_singleton children child ih =>
        rw [List.flatMap_append, List.flatMap_singleton, ← ih, append]
        simp

/-! ## Rows together -/

theorem gather_append (contribution : String → Node → Logged (Fields Json))
    (first second : List (String × Node)) :
    gather contribution (first ++ second) = (do
      let former ← gather contribution first
      let latter ← gather contribution second
      return Fields.merge former latter) := by
  induction first with
  | nil => ext1 <;> simp
  | cons child rest ih =>
      rw [List.cons_append]
      cases token : isMetadata child.1 with
      | true => rw [gather_metadata _ token, gather_metadata _ token, ih]
      | false =>
          rw [gather_token _ token, gather_token _ token, ih]
          ext1 <;> simp [Fields.merge_assoc]

theorem expand_append (owner : String) (path : TokenPath) (first second : List (String × Node)) :
    expand owner path (first ++ second) = (do
      let former ← expand owner path first
      let latter ← expand owner path second
      return former.merge latter) := by
  induction first with
  | nil => ext1 <;> simp
  | cons child rest ih =>
      rw [List.cons_append]
      cases token : isMetadata child.1 with
      | true => rw [expand_metadata _ _ token, expand_metadata _ _ token, ih]
      | false =>
          rw [expand_token _ _ token, expand_token _ _ token, ih]
          ext1 <;> simp [Expansion.merge_assoc]

/-! ## Walks -/

theorem gather_siblingWise (contribution : String → Node → Logged (Fields Json)) :
    SiblingWise Fields.merge [] (gather contribution) :=
  .of_append (gather_nil contribution) (gather_append contribution)

theorem expand_siblingWise (owner : String) (path : TokenPath) :
    SiblingWise Expansion.merge .empty (expand owner path) :=
  .of_append (expand_nil owner path) (expand_append owner path)

/-- Every walk over the children of a container treats them independently: that over a container
of a section, those over the fields of forms, over lists and over navigations, however the nodes
below are resolved, and the expansion of a rename parent. -/
theorem walks_siblingWise (path : TokenPath) :
    SiblingWise Fields.merge [] (nodeEntries path) ∧
    (∀ resolve : Resolver,
      SiblingWise Fields.merge [] (fun children => formField resolve path (.container children)) ∧
      SiblingWise Fields.merge [] (fun children => list resolve path (.container children)) ∧
      SiblingWise Fields.merge []
        (fun children => navigation resolve path (.container children))) ∧
    ∀ owner, SiblingWise Expansion.merge .empty (expand owner path) := by
  have entries : nodeEntries path = gather (nodeChild path) := funext (nodeEntries_eq_gather path)
  rw [entries]
  exact ⟨gather_siblingWise (nodeChild path), fun resolve =>
    ⟨gather_siblingWise (formFieldChild resolve path), gather_siblingWise (listChild resolve path),
      gather_siblingWise (navigationChild resolve path)⟩,
    fun owner => expand_siblingWise owner path⟩

end Resolve
end DesignTokens
