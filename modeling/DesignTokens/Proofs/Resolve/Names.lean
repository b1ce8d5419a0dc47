import DesignTokens.Proofs.Resolve.Results

/-!
# Names in results

An object has an entry only under a name that some child contributes.  A child contributes its own
key and flat names of the rename table, whether it is expanded, reshaped or resolved as it stands;
only the padding of a form field has names besides these.  A name that no other child contributes
has the value that one child gives it.
-/

namespace DesignTokens
namespace Resolve

variable {contribution : String → Node → Logged (Fields Json)} {name : String}

theorem mem_keys_gather {children : List (String × Node)} :
    name ∈ Fields.keys (gather contribution children).value ↔ ∃ child ∈ children,
      isMetadata child.1 = false ∧ name ∈ Fields.keys (contribution child.1 child.2).value := by
  induction children with
  | nil => simp
  | cons child rest ih =>
      rw [List.exists_mem_cons_iff, ← ih]
      cases token : isMetadata child.1 with
      | true => simp [gather_metadata _ token]
      | false => simp [gather_token _ token, Fields.mem_keys_merge]

/-- A name that only one child contributes has the value that the child gives it. -/
theorem get?_gather {children : Fields Node} (distinct : (Fields.keys children).Nodup) {key : String}
    {child : Node} (found : Fields.get? children key = some child) (token : isMetadata key = false)
    (others : ∀ other ∈ children, other.1 ≠ key →
      name ∉ Fields.keys (contribution other.1 other.2).value) :
    Fields.get? (gather contribution children).value name =
      Fields.get? (contribution key child).value name := by
  induction children with
  | nil => simp [Fields.get?] at found
  | cons first rest ih =>
      obtain ⟨fresh, distinct⟩ := (Fields.nodup_keys_cons _ _).mp distinct
      obtain ⟨here, others⟩ := List.forall_mem_cons.mp others
      by_cases same : first.1 = key
      · have nowhere : name ∉ Fields.keys (gather contribution rest).value := by
          rw [mem_keys_gather]
          rintro ⟨other, listed, -, contributes⟩
          have different : other.1 ≠ key :=
            fun equal => fresh (same.trans equal.symm ▸ Fields.mem_keys_of_mem listed)
          exact others other listed different contributes
        have equal : first.2 = child := by simpa [Fields.get?, same] using found
        subst same equal
        rw [gather_token _ token, Logged.bind_value, Logged.bind_value, Logged.pure_value,
          Fields.get?_merge, (Fields.get?_eq_none_iff_not_mem _ name).mpr nowhere, Option.none_or]
      · have later : Fields.get? rest key = some child := by simpa [Fields.get?, same] using found
        cases known : isMetadata first.1 with
        | true => rw [gather_metadata _ known, ih distinct later others]
        | false =>
            rw [gather_token _ known, Logged.bind_value, Logged.bind_value, Logged.pure_value,
              Fields.get?_merge, ih distinct later others,
              (Fields.get?_eq_none_iff_not_mem _ name).mpr (here same), Option.or_none]

/-! ## Own keys -/

section Named

variable {names : List String} (named : ∀ name key child,
  name ∈ Fields.keys (contribution key child).value → name = key ∨ name ∈ names)

include named

/-- Where children contribute their own keys and some names besides, any other key has the value that
the child called so gives it. -/
theorem get?_gather_own {children : Fields Node} (distinct : (Fields.keys children).Nodup)
    {key : String} {child : Node} (found : Fields.get? children key = some child)
    (token : isMetadata key = false) (foreign : key ∉ names) :
    Fields.get? (gather contribution children).value key =
      Fields.get? (contribution key child).value key := by
  apply get?_gather distinct found token
  intro other _ different contributes
  rcases named key other.1 other.2 contributes with own | known
  · exact different own.symm
  · exact foreign known

/-- A walk without the children of some names gives none of these names back, unless it is one that
other children contribute. -/
theorem not_mem_gather_without {apart : List String} (dropped : name ∈ apart)
    (foreign : name ∉ names) (children : Fields Node) :
    name ∉ Fields.keys (gather contribution (Fields.without children apart)).value := by
  intro member
  obtain ⟨child, listed, -, contributes⟩ := mem_keys_gather.mp member
  rcases named name child.1 child.2 contributes with own | known
  · have kept := (List.mem_filter.mp listed).2
    simp [← own, dropped] at kept
  · exact foreign known

end Named

/-! ## Names of contributions -/

variable {path : TokenPath} {key : String} {child : Node}

theorem name_of_mem_expandedChild
    (member : name ∈ Fields.keys (expandedChild path key child).value) :
    name = key ∨ name ∈ Rename.names := by
  have clean := expand_preserves (fun _ _ => trivial) child.yields_true key (path ++ [key])
  rw [expandedChild, Logged.map_value, Expansion.entries, Fields.mem_keys_merge] at member
  rcases member with own | flattened
  · split at own
    · simp at own
    · exact .inl (by simpa using own)
  · obtain ⟨entry, listed, rfl⟩ := List.mem_map.mp flattened
    obtain ⟨rule, known, same⟩ := clean.names entry listed
    exact .inr (same ▸ Rename.name_mem_names known)

theorem name_of_mem_treeChild (member : name ∈ Fields.keys (treeChild path key child).value) :
    name = key ∨ name ∈ Rename.names := by
  unfold treeChild at member
  split at member
  · exact name_of_mem_expandedChild member
  · exact .inl (eq_of_mem_keys_keyed member)

/-- The names of the form, the list and the navigation of a section are no exceptions: that of the
form is a flat name, and the others are the keys themselves. -/
theorem name_of_mem_nodeChild (member : name ∈ Fields.keys (nodeChild path key child).value) :
    name = key ∨ name ∈ Rename.names := by
  have applies := applies_first path key child
  unfold nodeChild at member
  cases rule : Dispatch.first path key child with
  | form =>
      have flat : "formField" ∈ Rename.names := by decide
      rw [rule, form_contribution_value] at member
      exact .inr (List.mem_singleton.mp member ▸ flat)
  | list =>
      rw [rule] at member applies
      have called : key = "list" := by simp_all [Dispatch.applies, Dispatch.isSectionChild]
      exact .inl ((List.mem_singleton.mp member).trans called.symm)
  | navigation =>
      rw [rule] at member applies
      have called : key = "navigation" := by simp_all [Dispatch.applies, Dispatch.isSectionChild]
      exact .inl ((List.mem_singleton.mp member).trans called.symm)
  | transformable =>
      rw [rule] at member
      exact name_of_mem_expandedChild member
  | generic =>
      rw [rule] at member
      exact .inl (eq_of_mem_keys_keyed member)

variable {resolve : Resolver}

theorem name_of_mem_formFieldChild
    (member : name ∈ Fields.keys (formFieldChild resolve path key child).value) :
    name = key ∨ name ∈ Rename.names ++ Fields.keys paddingParts := by
  unfold formFieldChild at member
  split at member
  · exact .inr (List.mem_append_right _ (keys_padding_subset resolve _ _ name member))
  · split at member
    · exact .inl (List.mem_singleton.mp member)
    · split at member
      · exact (name_of_mem_expandedChild member).imp_right (List.mem_append_left _)
      · exact .inl (eq_of_mem_keys_keyed member)

theorem name_of_mem_listChild
    (member : name ∈ Fields.keys (listChild resolve path key child).value) :
    name = key ∨ name ∈ Rename.names := by
  unfold listChild at member
  split at member
  · simp only [Logged.bind_value, Logged.pure_value, Fields.keys_append, List.mem_append] at member
    rcases member with option | group
    · exact .inl (eq_of_mem_keys_keyed option)
    · have flat : "optionGroup" ∈ Rename.names := by decide
      exact .inr (eq_of_mem_keys_keyed group ▸ flat)
  · exact .inl (eq_of_mem_keys_keyed member)

theorem name_of_mem_navigationChild
    (member : name ∈ Fields.keys (navigationChild resolve path key child).value) :
    name = key ∨ name ∈ Rename.names := by
  have flat : ∀ name ∈ Fields.keys submenuParts, name ∈ Rename.names := by decide
  unfold navigationChild at member
  split at member
  · exact .inr (flat name (keys_parts_subset resolve _ _ _ name member))
  · split at member
    · exact .inl (eq_of_mem_keys_keyed member)
    · exact .inl (eq_of_mem_keys_keyed member)

end Resolve
end DesignTokens
