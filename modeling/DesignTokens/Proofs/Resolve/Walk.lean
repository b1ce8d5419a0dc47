import DesignTokens.Proofs.Token.Tree
import DesignTokens.Resolve.Dispatch

/-!
# The steps of a walk

Every walk over a container gathers what its children contribute, and an expansion merges what the
children of the expanded container contribute.  A path that leads to no section root is clear: below
it the walk of sections and the walk without sections are the same.
-/

namespace DesignTokens

namespace Node

/-- The value of a node is a style text, or the value that the node holds. -/
theorem of_mem_resolveTerminal {path : TokenPath} {node : Node} {result : Json}
    (resolved : result ∈ (node.resolveTerminal path).value) :
    (∃ css, result = .str css) ∨ (∃ type, node = .leaf type result) ∨
      ∃ value, node = .bare value ∧ result = .scalar value := by
  cases node with
  | container children => simp [resolveTerminal] at resolved
  | malformed raw malformation => simp [resolveTerminal] at resolved
  | bare value =>
      simp only [resolveTerminal, Logged.pure_value, Option.mem_def] at resolved
      split at resolved
      · simp at resolved
      · exact .inr (.inr ⟨value, rfl, (Option.some.inj resolved).symm⟩)
  | leaf type value =>
      simp only [resolveTerminal, Logged.pure_value, Option.mem_def] at resolved
      split at resolved
      · obtain ⟨css, -, rendered⟩ := Option.map_eq_some_iff.mp resolved
        exact .inl ⟨css, rendered.symm⟩
      · have same : value = result := by
          cases value with
          | null => simp [Json.toOption] at resolved
          | _ => exact Option.some.inj resolved
        exact .inr (.inl ⟨type, by rw [same]⟩)

end Node

namespace Resolve

/-! ## Gathering -/

@[simp]
theorem gather_nil (contribution : String → Node → Logged (Fields Json)) :
    gather contribution [] = pure [] := rfl

theorem gather_metadata (contribution : String → Node → Logged (Fields Json)) {key : String}
    (metadata : isMetadata key = true) (child : Node) (rest : List (String × Node)) :
    gather contribution ((key, child) :: rest) = gather contribution rest := by
  simp [gather, metadata]

theorem gather_token (contribution : String → Node → Logged (Fields Json)) {key : String}
    (token : isMetadata key = false) (child : Node) (rest : List (String × Node)) :
    gather contribution ((key, child) :: rest) = (do
      let here ← contribution key child
      let others ← gather contribution rest
      return Fields.merge here others) := by
  simp [gather, token]

theorem gather_congr {first second : String → Node → Logged (Fields Json)}
    {children : List (String × Node)}
    (same : ∀ child ∈ children, first child.1 child.2 = second child.1 child.2) :
    gather first children = gather second children := by
  induction children with
  | nil => rfl
  | cons child rest ih =>
      obtain ⟨here, others⟩ := List.forall_mem_cons.mp same
      rw [gather, gather, here, ih others]

/-! ## Away from the section roots -/

/-- What a child of a container contributes away from the section roots. -/
def treeChild (path : TokenPath) (key : String) (child : Node) : Logged (Fields Json) :=
  if child.isContainer && Rename.isParent key then expandedChild path key child
  else plainChild tree path key child

theorem treeEntries_eq_gather (path : TokenPath) (children : List (String × Node)) :
    treeEntries path children = gather (treeChild path) children := by
  induction children with
  | nil => rfl
  | cons child rest ih =>
      obtain ⟨key, child⟩ := child
      cases metadata : isMetadata key with
      | true => rw [treeEntries, gather_metadata _ metadata, if_pos metadata, ih]
      | false =>
          rw [treeEntries, gather_token _ metadata, if_neg (by simp [metadata]), ← ih]
          cases parent : Rename.isParent key <;> cases child <;>
            simp [treeChild, Node.isContainer, parent, expandedChild, plainChild, Node.children]

theorem tree_container (path : TokenPath) (children : List (String × Node)) :
    tree path (.container children) =
      (fun entries => some (.object entries)) <$> gather (treeChild path) children := by
  rw [tree, treeEntries_eq_gather]

theorem tree_terminal (path : TokenPath) {node : Node} (terminal : node.isContainer = false) :
    tree path node = node.resolveTerminal path := by
  cases node with
  | container children => exact absurd terminal.symm Bool.false_ne_true
  | _ => rw [tree]

theorem eq_some_of_substantial {result : Option Json} {value : Json}
    (substance : substantial result = some value) : result = some value := by
  unfold substantial at substance
  split at substance
  · simp at substance
  · exact substance

/-- What a child of a container at a path contributes to the expansion of `owner`. -/
def expandChild (owner : String) (path : TokenPath) (key : String) (child : Node) :
    Logged Expansion :=
  match Rename.find? (path ++ [key]), child with
  | some rule, child => renamed owner path rule <$> tree (path ++ [key]) child
  | none, .container children => expand owner (path ++ [key]) children
  | none, child => (fun value => ⟨[], keyed key value⟩) <$> tree (path ++ [key]) child

theorem expandChild_of_rule (owner : String) {path : TokenPath} {key : String} {rule : Rename}
    (found : Rename.find? (path ++ [key]) = some rule) (child : Node) :
    expandChild owner path key child = renamed owner path rule <$> tree (path ++ [key]) child := by
  simp only [expandChild, found]

theorem expandChild_of_container (owner : String) {path : TokenPath} {key : String}
    (unnamed : Rename.find? (path ++ [key]) = none) (children : List (String × Node)) :
    expandChild owner path key (.container children) =
      expand owner (path ++ [key]) children := by
  simp only [expandChild, unnamed]

theorem expandChild_of_terminal (owner : String) {path : TokenPath} {key : String}
    (unnamed : Rename.find? (path ++ [key]) = none) {child : Node}
    (terminal : child.isContainer = false) :
    expandChild owner path key child =
      (fun value => ⟨[], keyed key value⟩) <$> tree (path ++ [key]) child := by
  cases child with
  | container children => exact absurd terminal.symm Bool.false_ne_true
  | _ => simp only [expandChild, unnamed]

@[simp]
theorem expand_nil (owner : String) (path : TokenPath) : expand owner path [] = pure .empty := rfl

theorem expand_metadata (owner : String) (path : TokenPath) {key : String}
    (metadata : isMetadata key = true) (child : Node) (rest : List (String × Node)) :
    expand owner path ((key, child) :: rest) = expand owner path rest := by
  rw [expand, if_pos metadata]

theorem expand_token (owner : String) (path : TokenPath) {key : String}
    (token : isMetadata key = false) (child : Node) (rest : List (String × Node)) :
    expand owner path ((key, child) :: rest) = (do
      let here ← expandChild owner path key child
      let others ← expand owner path rest
      return here.merge others) := by
  rw [expand, if_neg (by simp [token])]
  cases rule : Rename.find? (path ++ [key]) <;> cases child <;> simp [expandChild, rule]

/-! ## In sections -/

theorem applies_first (path : TokenPath) (key : String) (child : Node) :
    (Dispatch.first path key child).applies path key child = true := by
  rw [Dispatch.first]
  cases found : Dispatch.table.find? fun rule : Dispatch => rule.applies path key child with
  | none => rfl
  | some rule =>
      exact List.find?_some (p := fun rule : Dispatch => rule.applies path key child) found

theorem form_contribution_value (resolve : Resolver) (path : TokenPath) (key : String)
    (child : Node) :
    (Dispatch.form.contribution resolve path key child).value =
      [("formField", .object (formField resolve (path ++ [key, "field"])
        ((child.child? "field").getD (.container []))).value)] := by
  simp only [Dispatch.contribution]
  split <;> rfl

/-- What a child of a container contributes. -/
def nodeChild (path : TokenPath) (key : String) (child : Node) : Logged (Fields Json) :=
  match Dispatch.first path key child with
  | .generic => plainChild node path key child
  | rule => rule.contribution tree path key child

theorem nodeEntries_eq_gather (path : TokenPath) (children : List (String × Node)) :
    nodeEntries path children = gather (nodeChild path) children := by
  induction children with
  | nil => rfl
  | cons child rest ih =>
      obtain ⟨key, child⟩ := child
      cases metadata : isMetadata key with
      | true => rw [nodeEntries, gather_metadata _ metadata, if_pos metadata, ih]
      | false =>
          rw [nodeEntries, gather_token _ metadata, if_neg (by simp [metadata]), ← ih]
          cases rule : Dispatch.first path key child <;> simp [nodeChild, rule, plainChild]

theorem node_container (path : TokenPath) (children : List (String × Node)) :
    node path (.container children) =
      (fun entries => some (.object entries)) <$> gather (nodeChild path) children := by
  rw [node, nodeEntries_eq_gather]

theorem node_terminal (path : TokenPath) {child : Node} (terminal : child.isContainer = false) :
    node path child = child.resolveTerminal path := by
  cases child with
  | container children => exact absurd terminal.symm Bool.false_ne_true
  | _ => rw [node]

/-! ## Clear paths -/

end Resolve

namespace Dispatch

/-- A path leads to no section root: it is neither one of them nor on the way to one. -/
def Clear (path : TokenPath) : Prop := ∀ root ∈ sectionRoots, ¬path <+: root

instance : DecidablePred Clear := fun path =>
  inferInstanceAs (Decidable (∀ root ∈ sectionRoots, ¬path <+: root))

theorem Clear.not_root {path : TokenPath} (clear : Clear path) :
    sectionRoots.contains path = false := by
  rw [← Bool.not_eq_true, List.contains_iff_mem]
  exact fun root => clear path root List.prefix_rfl

theorem Clear.child {path : TokenPath} (clear : Clear path) (key : String) :
    Clear (path ++ [key]) :=
  fun root member leads => clear root member ((List.prefix_append path [key]).trans leads)

theorem first_of_not_root {path : TokenPath} (away : sectionRoots.contains path = false)
    (key : String) (child : Node) :
    first path key child =
      if Rename.isParent key && child.isContainer then transformable else generic := by
  rw [first, table]
  simp only [List.find?, applies, isSectionChild, away, Bool.and_false]
  cases Rename.isParent key && child.isContainer <;> rfl

/-- The keys of the containers that are reshaped directly below the root of a section. -/
def sectionKeys : List String := ["form", "list", "navigation"]

theorem first_of_other_key {key : String} (other : sectionKeys.contains key = false)
    (path : TokenPath) (child : Node) :
    first path key child =
      if Rename.isParent key && child.isContainer then transformable else generic := by
  simp only [sectionKeys, List.contains_cons, List.contains_nil, Bool.or_false,
    Bool.or_eq_false_iff, beq_eq_false_iff_ne] at other
  rw [first, table]
  simp only [List.find?, applies, isSectionChild, other, decide_false, Bool.false_and]
  cases Rename.isParent key && child.isContainer <;> rfl

theorem first_of_terminal (path : TokenPath) (key : String) {child : Node}
    (terminal : child.isContainer = false) : first path key child = generic := by
  simp [first, table, applies, isSectionChild, terminal]

theorem first_of_root {path : TokenPath} (root : sectionRoots.contains path = true) {child : Node}
    (container : child.isContainer = true) :
    first path "form" child = form ∧ first path "list" child = list ∧
      first path "navigation" child = navigation := by
  have root := List.contains_iff_mem.mp root
  simp [first, table, applies, isSectionChild, root, container]

end Dispatch

namespace Resolve

/-- What a child contributes that is not reshaped. -/
theorem nodeChild_of_first {path : TokenPath} {key : String} {child : Node}
    (first : Dispatch.first path key child =
      if Rename.isParent key && child.isContainer then .transformable else .generic) :
    nodeChild path key child =
      if child.isContainer && Rename.isParent key then expandedChild path key child
      else plainChild node path key child := by
  rw [nodeChild, first, Bool.and_comm]
  cases child.isContainer && Rename.isParent key <;> rfl

theorem nodeChild_of_not_root {path : TokenPath}
    (away : Dispatch.sectionRoots.contains path = false) (key : String) (child : Node) :
    nodeChild path key child =
      if child.isContainer && Rename.isParent key then expandedChild path key child
      else plainChild node path key child :=
  nodeChild_of_first (Dispatch.first_of_not_root away key child)

theorem nodeChild_of_other_key {key : String} (other : Dispatch.sectionKeys.contains key = false)
    (path : TokenPath) (child : Node) :
    nodeChild path key child =
      if child.isContainer && Rename.isParent key then expandedChild path key child
      else plainChild node path key child :=
  nodeChild_of_first (Dispatch.first_of_other_key other path child)

theorem nodeChild_of_terminal (path : TokenPath) (key : String) {child : Node}
    (terminal : child.isContainer = false) :
    nodeChild path key child = plainChild node path key child := by
  rw [nodeChild, Dispatch.first_of_terminal path key terminal]

/-- Directly below the root of a section, the containers of three keys are reshaped. -/
theorem nodeChild_of_root {path : TokenPath} (root : Dispatch.sectionRoots.contains path = true)
    {child : Node} (container : child.isContainer = true) :
    nodeChild path "form" child = Dispatch.form.contribution tree path "form" child ∧
      nodeChild path "list" child = Dispatch.list.contribution tree path "list" child ∧
      nodeChild path "navigation" child =
        Dispatch.navigation.contribution tree path "navigation" child := by
  obtain ⟨form, list, navigation⟩ := Dispatch.first_of_root root container
  refine ⟨?_, ?_, ?_⟩
  · rw [nodeChild, form]
  · rw [nodeChild, list]
  · rw [nodeChild, navigation]

/-- Below a clear path there are no sections. -/
theorem node_eq_tree {path : TokenPath} (clear : Dispatch.Clear path) (child : Node) :
    node path child = tree path child := by
  induction child using Node.induction generalizing path with
  | terminal child terminal => rw [node_terminal path terminal, tree_terminal path terminal]
  | container children ih =>
      have same : ∀ child ∈ children,
          nodeChild path child.1 child.2 = treeChild path child.1 child.2 := by
        intro child member
        rw [nodeChild_of_not_root clear.not_root, treeChild, plainChild, plainChild,
          ih child member (clear.child child.1)]
      rw [node_container, tree_container, gather_congr same]

/-- Every value but null is resolved as the node it stands for. -/
theorem value_of_ne_null (path : TokenPath) {raw : Json} (present : raw ≠ .null) :
    value path raw = node path (.ofJson raw) := by
  rw [value]
  exact present

end Resolve
end DesignTokens
