import DesignTokens.Proofs.Resolve.Rules
import DesignTokens.Proofs.Resolve.Siblings
import DesignTokens.Proofs.Theme

/-!
# Where sections are reshaped

Forms, lists and navigations are reshaped directly below the root of a section.  The roots are known
by their paths, and all passes share them.  So in the pass over the semantic tokens there are three:
the root of the pass, and the children of that root that are called as the color schemes are.  All
other top-level children of a pass give what the rules without those for sections give.
-/

namespace DesignTokens

namespace Dispatch

/-- Whether a child is a form, a list or a navigation. -/
def isReshapable (key : String) (child : Node) : Bool :=
  sectionKeys.contains key && child.isContainer

/-- A rule for sections handles the containers of its name directly below a section root. -/
theorem first_eq_iff_of_isReshaping {rule : Dispatch} (reshaping : rule.isReshaping = true)
    (path : TokenPath) (key : String) (child : Node) :
    first path key child = rule ↔
      key = rule.name ∧ child.isContainer = true ∧ sectionRoots.contains path = true := by
  constructor
  · intro same
    have applies := Resolve.applies_first path key child
    rw [same] at applies
    cases rule with
    | form | list | navigation =>
        simpa only [Dispatch.applies, isSectionChild, Bool.and_eq_true, decide_eq_true_eq,
          and_assoc, name] using applies
    | transformable | generic => exact absurd reshaping Bool.false_ne_true
  · rintro ⟨rfl, container, root⟩
    obtain ⟨form, list, navigation⟩ := first_of_root root container
    cases rule with
    | form => exact form
    | list => exact list
    | navigation => exact navigation
    | transformable | generic => exact absurd reshaping Bool.false_ne_true

/-- A child that is no form, list or navigation is expanded or resolved as it stands. -/
theorem first_of_not_reshapable {key : String} {child : Node}
    (other : isReshapable key child = false) (path : TokenPath) :
    first path key child =
      if Rename.isParent key && child.isContainer then transformable else generic := by
  cases container : child.isContainer with
  | false => rw [first_of_terminal path key container, Bool.and_false, if_neg Bool.false_ne_true]
  | true =>
      rw [isReshapable, container, Bool.and_true] at other
      rw [first_of_other_key other, container]

end Dispatch

namespace Resolve

/-! ## Children that are not reshaped -/

theorem nodeChild_eq_treeChild {path : TokenPath} {key : String} {child : Node}
    (other : Dispatch.isReshapable key child = false)
    (below : node (path ++ [key]) child = tree (path ++ [key]) child) :
    nodeChild path key child = treeChild path key child := by
  rw [nodeChild_of_first (Dispatch.first_of_not_reshapable other path), treeChild, plainChild,
    plainChild, below]

/-- Where no child is reshaped and no section lies below one, sections have no effect. -/
theorem node_eq_tree_of_not_reshapable {path : TokenPath} {root : Node}
    (others : ∀ child ∈ root.children, Dispatch.isReshapable child.1 child.2 = false)
    (below : ∀ key, Dispatch.Clear (path ++ [key])) : node path root = tree path root := by
  cases container : root.isContainer with
  | false => rw [node_terminal path container, tree_terminal path container]
  | true =>
      obtain ⟨children, rfl⟩ := Node.exists_children container
      rw [node_container, tree_container]
      congr 1
      apply gather_congr
      exact fun child member => nodeChild_eq_treeChild (others child member)
        (node_eq_tree (below child.1) child.2)

/-- A container of one child is the object of what that child contributes. -/
theorem tree_singleton {path : TokenPath} {token : String × Node}
    (same : isMetadata token.1 = false →
      nodeChild path token.1 token.2 = treeChild path token.1 token.2) :
    tree path (.container [token]) =
      (fun entries => some (.object entries)) <$> nodeEntries path [token] := by
  rw [tree_container, nodeEntries_eq_gather]
  congr 1
  cases metadata : isMetadata token.1 with
  | true => rw [gather_metadata _ metadata, gather_metadata _ metadata, gather_nil, gather_nil]
  | false => rw [gather_token _ metadata, gather_token _ metadata, same metadata, gather_nil,
      gather_nil]

end Resolve

namespace ThemePass

/-- The keys of the semantic tokens at which the color schemes have their roots. -/
def schemeKeys : List String := ["light", "dark"]

/-- From the root of a pass, some keys lead to the root of a section. -/
def LeadsToRoot (pass : ThemePass) (keys : List String) : Prop :=
  (pass ≠ primitive ∧ keys = []) ∨ (pass = semantic ∧ ∃ key ∈ schemeKeys, keys = [key])

theorem contains_sectionRoots_iff (pass : ThemePass) (keys : List String) :
    Dispatch.sectionRoots.contains (pass.path ++ keys) = true ↔ pass.LeadsToRoot keys := by
  cases pass <;> simp [path, Dispatch.sectionRoots, LeadsToRoot, schemeKeys, or_comm]

/-- Below its top level, a pass meets no section, except for those of the color schemes among the
semantic tokens. -/
theorem clear_child {pass : ThemePass} {key : String}
    (other : pass = semantic → key ∉ schemeKeys) : Dispatch.Clear (pass.path ++ [key]) := by
  intro root listed leads
  have scheme : pass = semantic ∧ key ∈ schemeKeys := by
    simp only [Dispatch.sectionRoots, List.mem_cons, List.not_mem_nil, or_false] at listed
    cases pass with
    | semantic => rcases listed with rfl | rfl | rfl <;> simp_all [path, schemeKeys]
    | _ => rcases listed with rfl | rfl | rfl <;> simp [path] at leads
  exact other scheme.1 scheme.2

/-- Two levels below its root, no pass meets a section. -/
theorem clear_below_child (pass : ThemePass) (key below : String) :
    Dispatch.Clear (pass.path ++ ([key] ++ [below])) := by
  intro root listed leads
  have short : ∀ root ∈ Dispatch.sectionRoots, root.length < 3 := by decide
  have long := leads.length_le.trans_lt (short root listed)
  cases pass <;> simp [path] at long

/-- A top-level child that is not reshaped gives what any walk gives that follows the rules without
those for sections, unless it is called as a color scheme is and has reshaped children itself. -/
theorem walk_top_level {pass : ThemePass} {token : String × Node}
    (other : Dispatch.isReshapable token.1 token.2 = false)
    (schemes : pass = semantic → token.1 ∈ schemeKeys →
      ∀ below ∈ token.2.children, Dispatch.isReshapable below.1 below.2 = false)
    {reduced : Resolver} (follows : Resolve.Follows Dispatch.plainTable reduced) :
    reduced pass.path (.container [token]) =
      (fun entries => some (.object entries)) <$> Resolve.nodeEntries pass.path [token] := by
  rw [follows.unique Resolve.follows_tree]
  apply Resolve.tree_singleton
  intro _
  apply Resolve.nodeChild_eq_treeChild other
  by_cases scheme : pass = semantic ∧ token.1 ∈ schemeKeys
  · apply Resolve.node_eq_tree_of_not_reshapable (schemes scheme.1 scheme.2)
    intro key
    rw [List.append_assoc]
    exact clear_below_child pass token.1 key
  · exact Resolve.node_eq_tree (clear_child fun same member => scheme ⟨same, member⟩) token.2

/-- A container that is called as a color scheme is gives what the pass over that scheme makes of
its children. -/
theorem walk_scheme {key : String} (scheme : key ∈ schemeKeys) (children : Fields Node) :
    Resolve.nodeEntries semantic.path [(key, .container children)] =
      (fun entries => [(key, .object entries)]) <$>
        Resolve.nodeEntries (semantic.path ++ [key]) children := by
  have token : isMetadata key = false := by
    revert key
    decide
  have plain : Dispatch.first semantic.path key (.container children) = .generic := by
    have cases : ∀ key ∈ schemeKeys,
        Dispatch.sectionKeys.contains key = false ∧ Rename.isParent key = false := by decide
    obtain ⟨other, single⟩ := cases key scheme
    rw [Dispatch.first_of_other_key other, single, Bool.false_and, if_neg Bool.false_ne_true]
  rw [Resolve.nodeEntries_eq_gather, Resolve.gather_token _ token, Resolve.nodeChild, plain,
    Resolve.plainChild, Resolve.node_container, Resolve.nodeEntries_eq_gather]
  ext1 <;> simp [Resolve.keyed]

/-- Forms, lists and navigations are reshaped exactly at the roots of sections, which for a pass are
its own root and, among the semantic tokens, the children that are called as the color schemes are.
A pass gives what its top-level children give one by one.  Those that are not reshaped give what any
walk gives that follows the rules without those for sections, unless they are called as a color
scheme is; these give what the pass over that scheme makes of their children. -/
theorem sections_reshaped_at_roots (pass : ThemePass) :
    (∀ keys key child rule, Dispatch.isReshaping rule = true →
      (Dispatch.first (pass.path ++ keys) key child = rule ↔
        key = rule.name ∧ child.isContainer = true ∧ pass.LeadsToRoot keys)) ∧
    (∀ settings document, (Theme.resolvePass settings document pass).Gives
      ((document.tokens (settings.sectionKey pass.path)).foldl (fun entries token =>
        Fields.merge entries (Resolve.nodeEntries pass.path [token]).value) [])) ∧
    (∀ token : String × Node, Dispatch.isReshapable token.1 token.2 = false →
      (pass = semantic → token.1 ∈ schemeKeys →
        ∀ below ∈ token.2.children, Dispatch.isReshapable below.1 below.2 = false) →
      ∀ reduced, Resolve.Follows Dispatch.plainTable reduced →
        reduced pass.path (.container [token]) =
          (fun entries => some (.object entries)) <$> Resolve.nodeEntries pass.path [token]) ∧
    ∀ key ∈ schemeKeys, ∀ children,
      Resolve.nodeEntries semantic.path [(key, .container children)] =
        (fun entries => [(key, .object entries)]) <$>
          Resolve.nodeEntries (semantic.path ++ [key]) children := by
  refine ⟨?_, ?_, ?_, fun key scheme children => walk_scheme scheme children⟩
  · intro keys key child rule reshaping
    rw [Dispatch.first_eq_iff_of_isReshaping reshaping, contains_sectionRoots_iff]
  · intro settings document
    have gives := (Theme.resolveSection_spec document (settings.sectionKey pass.path) pass.path).1
    have siblings := Resolve.gather_siblingWise (Resolve.nodeChild pass.path)
    simp only [Resolve.nodeEntries_eq_gather] at gives ⊢
    rwa [siblings.value_running] at gives
  · exact fun token other schemes reduced follows => walk_top_level other schemes follows

/-- A list of options with one group. -/
def groupedList : Node :=
  .container [("option", .container [("group", .container [("padding",
    .leaf "spacing" (.str "1px"))])])]

/-- Among the semantic tokens, a list is reshaped in a child called `light` and nowhere else below
the top level. -/
theorem groupedList_reshaped_in_light :
    Dispatch.first ["semantic", "light"] "list" groupedList = .list ∧
    (Resolve.nodeEntries ["semantic"] [("light", .container [("list", groupedList)])]).value =
      [("light", .object [("list", .object [("option", .object []),
        ("optionGroup", .object [("padding", .str "1px")])])])] ∧
    Dispatch.isReshapable "accent" (.container [("list", groupedList)]) = false ∧
    Resolve.tree ["semantic"] (.container [("accent", .container [("list", groupedList)])]) =
      (fun entries => some (.object entries)) <$>
        Resolve.nodeEntries ["semantic"] [("accent", .container [("list", groupedList)])] ∧
    (Resolve.nodeEntries ["semantic"] [("accent", .container [("list", groupedList)])]).value =
      [("accent", .object [("list", .object [
        ("optionGroup", .object [("padding", .str "1px")])])])] := by
  obtain ⟨dispatched, -, elsewhere, -⟩ := sections_reshaped_at_roots semantic
  have light : semantic.LeadsToRoot ["light"] := .inr ⟨rfl, "light", by decide, rfl⟩
  have other : Dispatch.isReshapable "accent" (.container [("list", groupedList)]) = false := by
    decide
  have noScheme : "accent" ∉ schemeKeys := by decide
  refine ⟨(dispatched ["light"] "list" groupedList .list rfl).mpr ⟨rfl, rfl, light⟩, by rfl, other,
    elsewhere ("accent", .container [("list", groupedList)]) other
      (fun _ scheme => absurd scheme noScheme) Resolve.tree Resolve.follows_tree, by rfl⟩

end ThemePass

end DesignTokens
