import DesignTokens.Proofs.Resolve.Rules

/-!
# Reshaping away from special children

The reshaping of fields of forms, of lists and of navigations goes its own way only at the
containers of a few keys.  Every other child is treated as in a plain walk.  So where none of the
special containers is present, the reshaped container is the resolved one, with the same events.
-/

namespace DesignTokens
namespace Resolve

variable {path : TokenPath} {key : String} {child : Node}

/-! ## Single children -/

theorem formFieldChild_eq_nodeChild (away : path ∉ Dispatch.sectionRoots)
    (plain : child.isContainer = true → key ∉ "padding" :: sizeKeys) :
    formFieldChild node path key child = nodeChild path key child := by
  rw [nodeChild_of_not_root (by simpa using away), formFieldChild]
  cases container : child.isContainer with
  | false => simp
  | true =>
      have plain := plain container
      rw [List.mem_cons, not_or] at plain
      obtain ⟨notPadding, notSize⟩ := plain
      rw [if_neg (by simp [notPadding]), if_neg (by simp [notSize])]

theorem listChild_eq_nodeChild (away : path ∉ Dispatch.sectionRoots)
    (plain : child.isContainer = true → Rename.isParent key = false) :
    listChild node path key child = nodeChild path key child := by
  -- An option is a rename parent, so that it needs no condition of its own; so is a submenu.
  have special : Rename.isParent "option" = true := by decide
  rw [nodeChild_of_not_root (by simpa using away), listChild]
  cases container : child.isContainer with
  | false => simp
  | true =>
      have other : key ≠ "option" := by
        rintro rfl
        simp [plain container] at special
      simp [other, plain container]

theorem navigationChild_eq_nodeChild (away : path ∉ Dispatch.sectionRoots)
    (plain : child.isContainer = true → Rename.isParent key = false ∧ key ≠ "item") :
    navigationChild node path key child = nodeChild path key child := by
  have special : Rename.isParent "submenu" = true := by decide
  rw [nodeChild_of_not_root (by simpa using away), navigationChild]
  cases container : child.isContainer with
  | false => simp
  | true =>
      obtain ⟨unexpanded, notItem⟩ := plain container
      have other : key ≠ "submenu" := by
        rintro rfl
        simp [unexpanded] at special
      simp [other, notItem, unexpanded]

/-! ## Containers -/

theorem node_container_of_same {contribution : String → Node → Logged (Fields Json)}
    {children : Fields Node}
    (same : ∀ child ∈ children, contribution child.1 child.2 = nodeChild path child.1 child.2) :
    node path (.container children) =
      (fun entries => some (.object entries)) <$> gather contribution children := by
  rw [node_container, gather_congr same]

variable {children : Fields Node}

theorem node_eq_formField (away : path ∉ Dispatch.sectionRoots)
    (plain : ∀ child ∈ children, child.2.isContainer = true → child.1 ∉ "padding" :: sizeKeys) :
    node path (.container children) =
      (fun entries => some (.object entries)) <$> formField node path (.container children) :=
  node_container_of_same fun child listed => formFieldChild_eq_nodeChild away (plain child listed)

theorem node_eq_list (away : path ∉ Dispatch.sectionRoots)
    (plain : ∀ child ∈ children, child.2.isContainer = true → Rename.isParent child.1 = false) :
    node path (.container children) =
      (fun entries => some (.object entries)) <$> list node path (.container children) :=
  node_container_of_same fun child listed => listChild_eq_nodeChild away (plain child listed)

theorem node_eq_navigation (away : path ∉ Dispatch.sectionRoots)
    (plain : ∀ child ∈ children, child.2.isContainer = true →
      Rename.isParent child.1 = false ∧ child.1 ≠ "item") :
    node path (.container children) =
      (fun entries => some (.object entries)) <$> navigation node path (.container children) :=
  node_container_of_same fun child listed => navigationChild_eq_nodeChild away (plain child listed)

/-- Away from the section roots, reshaping a container without special containers in it is resolving
it.  The containers of rename parents are special in lists and navigations only. -/
theorem node_eq_reshaped (away : path ∉ Dispatch.sectionRoots) (children : Fields Node) :
    ((∀ child ∈ children, child.2.isContainer = true → child.1 ∉ "padding" :: sizeKeys) →
      node path (.container children) = (fun entries => some (.object entries)) <$>
        formField node path (.container children)) ∧
    ((∀ child ∈ children, child.2.isContainer = true → Rename.isParent child.1 = false) →
      node path (.container children) = (fun entries => some (.object entries)) <$>
        list node path (.container children)) ∧
    ((∀ child ∈ children, child.2.isContainer = true →
        Rename.isParent child.1 = false ∧ child.1 ≠ "item") →
      node path (.container children) = (fun entries => some (.object entries)) <$>
        navigation node path (.container children)) :=
  ⟨node_eq_formField away, node_eq_list away, node_eq_navigation away⟩

/-- Tokens of a form field: a padding that is no container, and a container that is expanded. -/
def fieldTokens : Fields Node :=
  [("padding", .bare (.str "4px")),
   ("hover", .container
     [("border", .container [("color", .leaf "color" (.str "red"))]),
      ("shade", .malformed .null .null)]),
   ("size", .container [("sm", .container [("padding", .container [])])])]

/-- Tokens of a list or a navigation: the special keys have no containers at the first level. -/
def entryTokens : Fields Node :=
  [("option", .bare (.str "flat")),
   ("header", .container
     [("option", .container [("group", .leaf "color" (.str "red"))]),
      ("item", .container [("icon", .malformed .null .null)])]),
   ("item", .leaf "spacing" (.str "2px"))]

theorem node_eq_reshaped_tokens :
    node ["semantic", "form", "field"] (.container fieldTokens) =
        (fun entries => some (.object entries)) <$>
          formField node ["semantic", "form", "field"] (.container fieldTokens) ∧
      node ["semantic", "list"] (.container entryTokens) =
        (fun entries => some (.object entries)) <$>
          list node ["semantic", "list"] (.container entryTokens) ∧
      node ["semantic", "navigation"] (.container entryTokens) =
        (fun entries => some (.object entries)) <$>
          navigation node ["semantic", "navigation"] (.container entryTokens) :=
  ⟨(node_eq_reshaped (by decide) fieldTokens).1 (by decide),
    (node_eq_reshaped (by decide) entryTokens).2.1 (by decide),
    (node_eq_reshaped (by decide) entryTokens).2.2 (by decide)⟩

/-! ## Sections -/

/-- A walk is itself the resolver of all that it reshapes in a section. -/
theorem nodeChild_eq_contribution (path : TokenPath) (key : String) (child : Node) :
    nodeChild path key child =
      (Dispatch.first path key child).contribution node path key child := by
  have applies := applies_first path key child
  rw [nodeChild]
  cases rule : Dispatch.first path key child with
  | generic => rfl
  | _ =>
      rw [rule] at applies
      have clear := Dispatch.clear_of_applies applies (by decide)
      exact contribution_agree _ fun keys below _ => (node_eq_tree (clear.below keys) below).symm

/-- The objects that a section has for its form, its list and its navigation. -/
theorem value_nodeChild_of_root {root : TokenPath} (isRoot : root ∈ Dispatch.sectionRoots)
    {child : Node} (container : child.isContainer = true) :
    (nodeChild root "form" child).value =
        [("formField", .object (formField node (root ++ ["form", "field"])
          ((child.child? "field").getD (.container []))).value)] ∧
      (nodeChild root "list" child).value =
        [("list", .object (list node (root ++ ["list"]) child).value)] ∧
      (nodeChild root "navigation" child).value =
        [("navigation", .object (navigation node (root ++ ["navigation"]) child).value)] := by
  obtain ⟨form, list, navigation⟩ :=
    Dispatch.first_of_root (List.contains_iff_mem.mpr isRoot) container
  refine ⟨?_, ?_, ?_⟩
  · rw [nodeChild_eq_contribution, form, form_contribution_value]
  · rw [nodeChild_eq_contribution, list]
    rfl
  · rw [nodeChild_eq_contribution, navigation]
    rfl

private theorem below_root_not_root (path : TokenPath) {key : String}
    (special : key ∈ Dispatch.sectionKeys) : path ++ [key] ∉ Dispatch.sectionRoots := by
  have foreign : ∀ key ∈ Dispatch.sectionKeys, ∀ root ∈ Dispatch.sectionRoots, key ∉ root := by
    decide
  have clear : Dispatch.Clear (path ++ [key]) :=
    .of_mem (List.mem_append_right path (List.mem_singleton_self key)) (foreign key special)
  simpa using clear.not_root

/-- In a section, a list without special containers might as well be resolved as it stands. -/
theorem nodeChild_list_eq_plainChild {root : TokenPath} (isRoot : root ∈ Dispatch.sectionRoots)
    (plain : ∀ child ∈ children, child.2.isContainer = true → Rename.isParent child.1 = false) :
    nodeChild root "list" (.container children) =
      plainChild node root "list" (.container children) := by
  have first := (Dispatch.first_of_root (List.contains_iff_mem.mpr isRoot)
    (rfl : (Node.container children).isContainer = true)).2.1
  rw [nodeChild_eq_contribution, first, plainChild,
    node_eq_list (below_root_not_root root (by decide)) plain]
  ext1 <;> simp [Dispatch.contribution, keyed]

/-- In a section, so might a navigation. -/
theorem nodeChild_navigation_eq_plainChild {root : TokenPath}
    (isRoot : root ∈ Dispatch.sectionRoots)
    (plain : ∀ child ∈ children, child.2.isContainer = true →
      Rename.isParent child.1 = false ∧ child.1 ≠ "item") :
    nodeChild root "navigation" (.container children) =
      plainChild node root "navigation" (.container children) := by
  have first := (Dispatch.first_of_root (List.contains_iff_mem.mpr isRoot)
    (rfl : (Node.container children).isContainer = true)).2.2
  rw [nodeChild_eq_contribution, first, plainChild,
    node_eq_navigation (below_root_not_root root (by decide)) plain]
  ext1 <;> simp [Dispatch.contribution, keyed]

end Resolve
end DesignTokens
