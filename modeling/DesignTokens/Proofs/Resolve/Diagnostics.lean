import DesignTokens.Proofs.Resolve.Results
import Mathlib.Data.Multiset.OrderedMonoid

/-!
# Diagnostics

A walk reports malformed nodes, and which children of a form it leaves out.  Without sections it
reports every malformed node that is not below metadata, in document order.  With sections, where
children are left out and moved, it still reports no other node and none twice.
-/

namespace DesignTokens

/-- Whether an event is about a node, and not about the children that a form leaves out. -/
def Event.isDiagnostic : Event → Bool
  | formSiblingsIgnored .. => false
  | _ => true

namespace Logged

variable {α β : Type}

/-- The events about nodes, in the order in which they were reported. -/
def diagnostics (logged : Logged α) : List Event := logged.events.filter Event.isDiagnostic

@[simp]
theorem diagnostics_pure (value : α) : (pure value : Logged α).diagnostics = [] := rfl

@[simp]
theorem diagnostics_map (f : α → β) (first : Logged α) :
    (f <$> first).diagnostics = first.diagnostics := by
  rw [diagnostics, map_events, diagnostics]

@[simp]
theorem diagnostics_bind (first : Logged α) (next : α → Logged β) :
    (first >>= next).diagnostics = first.diagnostics ++ (next first.value).diagnostics :=
  List.filter_append first.events (next first.value).events

end Logged

namespace Node

/-! ## The malformed nodes of a tree -/

mutual

/-- The events about the malformed nodes of a tree at a path, in document order; metadata has
none. -/
def diagnostics (path : TokenPath) : Node → List Event
  | .leaf _ _ => []
  | .container children => childDiagnostics path children
  | .bare _ => []
  | .malformed _ malformation => [.tokenUnresolvable path malformation]

/-- The events about the malformed nodes below a container at a path. -/
def childDiagnostics (path : TokenPath) : List (String × Node) → List Event
  | [] => []
  | (key, child) :: rest =>
      (if isMetadata key then [] else diagnostics (path ++ [key]) child) ++
        childDiagnostics path rest

end

/-- The events about a child of a container at a path, without their order. -/
def reports (path : TokenPath) (child : String × Node) : Multiset Event :=
  if isMetadata child.1 then 0 else child.2.diagnostics (path ++ [child.1])

/-- The events about the child called `key`, if there is one. -/
def share (path : TokenPath) (node : Node) (key : String) : Multiset Event :=
  Fields.share (reports path) node.children key

@[simp]
theorem diagnostics_container (path : TokenPath) (children : List (String × Node)) :
    (container children).diagnostics path = childDiagnostics path children := by
  rw [diagnostics]

theorem childDiagnostics_metadata (path : TokenPath) {key : String}
    (metadata : isMetadata key = true) (child : Node) (rest : List (String × Node)) :
    childDiagnostics path ((key, child) :: rest) = childDiagnostics path rest := by
  rw [childDiagnostics, if_pos metadata, List.nil_append]

theorem childDiagnostics_token (path : TokenPath) {key : String} (token : isMetadata key = false)
    (child : Node) (rest : List (String × Node)) :
    childDiagnostics path ((key, child) :: rest) =
      child.diagnostics (path ++ [key]) ++ childDiagnostics path rest := by
  rw [childDiagnostics, if_neg (by simp [token])]

theorem coe_childDiagnostics (path : TokenPath) (children : List (String × Node)) :
    (childDiagnostics path children : Multiset Event) =
      Fields.measure (reports path) children := by
  induction children with
  | nil => rfl
  | cons child rest ih =>
      rw [Fields.measure_cons, ← ih, reports, childDiagnostics, ← Multiset.coe_add]
      split <;> rfl

theorem share_of_child? {path : TokenPath} {node child : Node} {key : String}
    (token : isMetadata key = false) (found : node.child? key = some child) :
    node.share path key = child.diagnostics (path ++ [key]) := by
  rw [child?_eq_get?] at found
  rw [share, Fields.share_of_get? _ found, reports, if_neg (by simp [token])]

theorem childDiagnostics_children_le (path : TokenPath) (node : Node) :
    (childDiagnostics path node.children : Multiset Event) ≤ node.diagnostics path := by
  cases node with
  | container parts => rw [diagnostics_container, Node.children]
  | _ => exact Multiset.zero_le _

/-- The events about some children and about what is left without them are events about the
container. -/
theorem shares_add_without_le (path : TokenPath) (node : Node) {keys : List String}
    (distinct : keys.Nodup) :
    (keys.map (node.share path)).sum + ((node.without keys).diagnostics path : Multiset Event) ≤
      node.diagnostics path := by
  cases node with
  | container children =>
      rw [without, diagnostics_container, diagnostics_container, coe_childDiagnostics,
        coe_childDiagnostics]
      exact Fields.shares_add_measure_without_le (reports path) children distinct
  | _ =>
      change (keys.map (Fields.share (reports path) [])).sum + _ ≤ _
      rw [Fields.sum_shares_nil, zero_add]
      exact le_rfl

theorem shares_le (path : TokenPath) (node : Node) {keys : List String} (distinct : keys.Nodup) :
    (keys.map (node.share path)).sum ≤ node.diagnostics path :=
  le_self_add.trans (node.shares_add_without_le path distinct)

theorem share_le (path : TokenPath) (node : Node) (key : String) :
    node.share path key ≤ node.diagnostics path := by
  simpa using node.shares_le path (List.nodup_singleton key)

theorem diagnostics_descend?_le {node found : Node} {keys : List String}
    (tokens : ∀ key ∈ keys, isMetadata key = false) (reached : node.descend? keys = some found)
    (path : TokenPath) :
    (found.diagnostics (path ++ keys) : Multiset Event) ≤ node.diagnostics path := by
  induction keys generalizing node path with
  | nil => simp [Option.some.inj reached]
  | cons key keys ih =>
      obtain ⟨token, tokens⟩ := List.forall_mem_cons.mp tokens
      obtain ⟨child, childFound, reached⟩ := Option.bind_eq_some_iff.mp reached
      have below := ih tokens reached (path ++ [key])
      rw [List.append_assoc, List.singleton_append, ← share_of_child? token childFound] at below
      exact below.trans (node.share_le path key)

theorem diagnostics_resolveTerminal (path : TokenPath) {node : Node}
    (terminal : node.isContainer = false) :
    (node.resolveTerminal path).diagnostics = node.diagnostics path := by
  cases node with
  | container children => exact absurd terminal.symm Bool.false_ne_true
  | leaf type value => rw [diagnostics]; rfl
  | bare value => rw [diagnostics]; rfl
  | malformed raw malformation => rw [diagnostics]; rfl

end Node

namespace Resolve

/-! ## Without sections -/

theorem diagnostics_gather {contribution : String → Node → Logged (Fields Json)}
    {path : TokenPath} {children : List (String × Node)}
    (exact : ∀ child ∈ children, isMetadata child.1 = false →
      (contribution child.1 child.2).diagnostics = child.2.diagnostics (path ++ [child.1])) :
    (gather contribution children).diagnostics = Node.childDiagnostics path children := by
  induction children with
  | nil => rfl
  | cons child rest ih =>
      obtain ⟨here, others⟩ := List.forall_mem_cons.mp exact
      cases token : isMetadata child.1 with
      | true => rw [gather_metadata _ token, Node.childDiagnostics_metadata path token, ih others]
      | false =>
          rw [gather_token _ token, Node.childDiagnostics_token path token, ← here token,
            ← ih others]
          simp

/-- The walk without sections and the expansions report just the malformed nodes of a tree. -/
private structure TreeReports (node : Node) : Prop where
  tree : ∀ path, (Resolve.tree path node).diagnostics = node.diagnostics path
  expand : ∀ owner path,
    (Resolve.expand owner path node.children).diagnostics = Node.childDiagnostics path node.children

private theorem treeReports_terminal {node : Node} (terminal : node.isContainer = false) :
    TreeReports node := by
  constructor
  · intro path
    rw [tree_terminal path terminal, Node.diagnostics_resolveTerminal path terminal]
  · intro owner path
    rw [Node.children_of_terminal terminal]
    rfl

private theorem treeChild_reports {node : Node} (part : TreeReports node) (path : TokenPath)
    (key : String) : (treeChild path key node).diagnostics = node.diagnostics (path ++ [key]) := by
  rw [treeChild]
  split
  · rename_i parent
    rw [Bool.and_eq_true] at parent
    obtain ⟨children, rfl⟩ := Node.exists_children parent.1
    rw [expandedChild, Logged.diagnostics_map, part.expand, Node.diagnostics_container]
    rfl
  · rw [plainChild, Logged.diagnostics_map, part.tree]

private theorem expandChild_reports {node : Node} (part : TreeReports node) (owner : String)
    (path : TokenPath) (key : String) :
    (expandChild owner path key node).diagnostics = node.diagnostics (path ++ [key]) := by
  unfold expandChild
  split
  · rw [Logged.diagnostics_map, part.tree]
  · rw [Node.diagnostics_container]
    exact part.expand owner (path ++ [key])
  · rw [Logged.diagnostics_map, part.tree]

private theorem treeReports (node : Node) : TreeReports node := by
  induction node using Node.induction with
  | terminal node terminal => exact treeReports_terminal terminal
  | container children ih =>
      constructor
      · intro path
        rw [tree_container, Logged.diagnostics_map, Node.diagnostics_container]
        exact diagnostics_gather fun child member _ => treeChild_reports (ih child member) path _
      · intro owner path
        rw [Node.children]
        induction children with
        | nil => rfl
        | cons child rest step =>
            obtain ⟨here, others⟩ := List.forall_mem_cons.mp ih
            cases token : isMetadata child.1 with
            | true =>
                rw [expand_metadata _ _ token, Node.childDiagnostics_metadata path token,
                  step others]
            | false =>
                rw [expand_token _ _ token, Node.childDiagnostics_token path token,
                  ← expandChild_reports here owner path, ← step others]
                simp

/-- The walk without sections reports the malformed nodes of a tree in document order. -/
theorem diagnostics_tree (path : TokenPath) (node : Node) :
    (tree path node).diagnostics = node.diagnostics path :=
  (treeReports node).tree path

theorem diagnostics_plainChild (path : TokenPath) (key : String) (node : Node) :
    (plainChild tree path key node).diagnostics = node.diagnostics (path ++ [key]) := by
  rw [plainChild, Logged.diagnostics_map, diagnostics_tree]

theorem diagnostics_expandedChild_le (path : TokenPath) (key : String) (node : Node) :
    ((expandedChild path key node).diagnostics : Multiset Event) ≤
      node.diagnostics (path ++ [key]) := by
  rw [expandedChild, Logged.diagnostics_map, (treeReports node).expand]
  exact node.childDiagnostics_children_le (path ++ [key])

/-! ## Reshaped containers -/

theorem diagnostics_gather_le {contribution : String → Node → Logged (Fields Json)}
    {path : TokenPath} {children : List (String × Node)}
    (bounded : ∀ child ∈ children,
      ((contribution child.1 child.2).diagnostics : Multiset Event) ≤
        child.2.diagnostics (path ++ [child.1])) :
    ((gather contribution children).diagnostics : Multiset Event) ≤
      Node.childDiagnostics path children := by
  induction children with
  | nil => exact le_rfl
  | cons child rest ih =>
      obtain ⟨here, others⟩ := List.forall_mem_cons.mp bounded
      cases token : isMetadata child.1 with
      | true =>
          rw [gather_metadata _ token, Node.childDiagnostics_metadata path token]
          exact ih others
      | false =>
          rw [gather_token _ token, Node.childDiagnostics_token path token, ← Multiset.coe_add]
          simpa [← Multiset.coe_add] using add_le_add here (ih others)

theorem diagnostics_resolveAt_le (path : TokenPath) (node : Node) {key : String}
    {keys : List String} (tokens : ∀ name ∈ key :: keys, isMetadata name = false) :
    ((resolveAt tree path node (key :: keys)).diagnostics : Multiset Event) ≤
      node.share path key := by
  rw [resolveAt]
  cases reached : node.descend? (key :: keys) with
  | none => exact Multiset.zero_le _
  | some found =>
      obtain ⟨token, tokens⟩ := List.forall_mem_cons.mp tokens
      obtain ⟨child, childFound, reached⟩ := Option.bind_eq_some_iff.mp reached
      have below := Node.diagnostics_descend?_le tokens reached (path ++ [key])
      rw [List.append_assoc, List.singleton_append] at below
      rw [Node.share_of_child? token childFound]
      simpa only [diagnostics_tree] using below

/-- Parts report nothing but the malformed nodes of the children that they lie below. -/
theorem diagnostics_parts_le (path : TokenPath) (node : Node) {rows : List (String × List String)}
    (separate : Separate rows) :
    ((parts tree path node rows).diagnostics : Multiset Event) ≤
      ((heads rows).map (node.share path)).sum := by
  induction rows with
  | nil => exact Multiset.zero_le _
  | cons row rows ih =>
      obtain ⟨name, keys⟩ := row
      have others := ih separate.tail
      obtain ⟨-, tokens⟩ := List.forall_mem_cons.mp (separate.tokens _ List.mem_cons_self)
      cases keys with
      | nil => exact absurd rfl (separate.nonempty _ List.mem_cons_self)
      | cons key keys =>
          have here := diagnostics_resolveAt_le path node tokens
          simpa [parts, heads, ← Multiset.coe_add] using add_le_add here others

theorem diagnostics_parts_le_node (path : TokenPath) (node : Node)
    {rows : List (String × List String)} (separate : Separate rows) :
    ((parts tree path node rows).diagnostics : Multiset Event) ≤ node.diagnostics path :=
  (diagnostics_parts_le path node separate).trans (node.shares_le path separate.heads)

theorem diagnostics_iconColors_le (path : TokenPath) (node : Node) {key : String}
    (token : isMetadata key = false) {rows : List (String × List String)}
    (separate : Separate rows) :
    ((iconColors tree (path ++ [key]) rows (node.child? key)).diagnostics : Multiset Event) ≤
      node.share path key := by
  unfold iconColors
  split
  · rename_i found
    rw [Node.share_of_child? token found]
    exact diagnostics_parts_le_node (path ++ [key]) _ separate
  · exact Multiset.zero_le _

theorem diagnostics_formFieldChild_le (path : TokenPath) (key : String) (node : Node) :
    ((formFieldChild tree path key node).diagnostics : Multiset Event) ≤
      node.diagnostics (path ++ [key]) := by
  unfold formFieldChild
  split
  · unfold padding
    split
    · rename_i equality
      rw [Option.some.inj equality]
      exact diagnostics_parts_le_node _ _ separate_paddingParts
    · exact Multiset.zero_le _
  · split
    · have font := diagnostics_parts_le (path ++ [key]) node separate_fontParts
      have directions := diagnostics_iconColors_le (path ++ [key]) node
        (by decide : isMetadata "padding" = false) separate_paddingParts
      have shares := node.shares_le (path ++ [key]) (by decide : ["font", "padding"].Nodup)
      rw [List.append_assoc, List.singleton_append, ← padding_eq_iconColors] at directions
      simp only [heads, fontParts, List.filterMap_cons, List.head?_cons, List.filterMap_nil,
        List.map_cons, List.map_nil, List.sum_cons, List.sum_nil, add_zero] at font shares
      simp only [Logged.diagnostics_bind, Logged.diagnostics_pure, List.append_nil,
        ← Multiset.coe_add]
      exact (add_le_add font directions).trans shares
    · split
      · exact diagnostics_expandedChild_le path key node
      · rw [diagnostics_plainChild]

/-- An icon bearer reports nothing but the malformed nodes of what is left of it and of its
icon. -/
theorem diagnostics_iconBearer_le (path : TokenPath) (node : Node) (apart : List String)
    {colors : List (String × List String)} (separate : Separate colors) :
    ((iconBearer tree path node apart colors).diagnostics : Multiset Event) ≤
      node.share path "icon" + ((node.without apart).diagnostics path : Multiset Event) := by
  have icon := diagnostics_iconColors_le path node (by decide : isMetadata "icon" = false) separate
  rw [add_comm]
  simpa [iconBearer, ← Multiset.coe_add, diagnostics_tree] using icon

theorem diagnostics_listChild_le (path : TokenPath) (key : String) (node : Node) :
    ((listChild tree path key node).diagnostics : Multiset Event) ≤
      node.diagnostics (path ++ [key]) := by
  unfold listChild
  split
  · have bearer := diagnostics_iconBearer_le (path ++ [key]) node ["group", "icon"]
      separate_optionColors
    have group := diagnostics_resolveAt_le (path ++ [key]) node
      (by decide : ∀ name ∈ ["group"], isMetadata name = false)
    have shares := node.shares_add_without_le (path ++ [key]) (by decide : ["group", "icon"].Nodup)
    simp only [List.map_cons, List.map_nil, List.sum_cons, List.sum_nil, add_zero] at shares
    simp only [Logged.diagnostics_bind, Logged.diagnostics_pure, List.append_nil,
      ← Multiset.coe_add]
    calc
      _ ≤ node.share (path ++ [key]) "icon" +
            ((node.without ["group", "icon"]).diagnostics (path ++ [key]) : Multiset Event) +
          node.share (path ++ [key]) "group" := add_le_add bearer group
      _ = node.share (path ++ [key]) "group" + node.share (path ++ [key]) "icon" +
            ((node.without ["group", "icon"]).diagnostics (path ++ [key]) : Multiset Event) := by
          rw [add_comm, add_assoc]
      _ ≤ node.diagnostics (path ++ [key]) := shares
  · rw [diagnostics_plainChild]

theorem diagnostics_navigationChild_le (path : TokenPath) (key : String) (node : Node) :
    ((navigationChild tree path key node).diagnostics : Multiset Event) ≤
      node.diagnostics (path ++ [key]) := by
  unfold navigationChild
  split
  · exact diagnostics_parts_le_node _ node separate_submenuParts
  · split
    · have bearer := diagnostics_iconBearer_le (path ++ [key]) node ["icon"] separate_itemColors
      have shares := node.shares_add_without_le (path ++ [key]) (List.nodup_singleton "icon")
      rw [List.map_singleton, List.sum_singleton] at shares
      rw [Logged.diagnostics_map]
      exact bearer.trans shares
    · rw [diagnostics_plainChild]

/-! ## Sections -/

private theorem gather_children_le {contribution : String → Node → Logged (Fields Json)}
    {path : TokenPath} {node : Node}
    (bounded : ∀ key child, ((contribution key child).diagnostics : Multiset Event) ≤
      child.diagnostics (path ++ [key])) :
    ((gather contribution node.children).diagnostics : Multiset Event) ≤ node.diagnostics path :=
  (diagnostics_gather_le fun child _ => bounded child.1 child.2).trans
    (node.childDiagnostics_children_le path)

theorem form_contribution_diagnostics (resolve : Resolver) (path : TokenPath) (key : String)
    (child : Node) :
    (Dispatch.form.contribution resolve path key child).diagnostics =
      (formField resolve (path ++ [key, "field"])
        ((child.child? "field").getD (.container []))).diagnostics := by
  simp only [Dispatch.contribution]
  split <;> simp [Logged.diagnostics, Event.isDiagnostic]

theorem diagnostics_contribution_le (rule : Dispatch) (path : TokenPath) (key : String)
    (node : Node) :
    ((rule.contribution tree path key node).diagnostics : Multiset Event) ≤
      node.diagnostics (path ++ [key]) := by
  cases rule with
  | form =>
      rw [form_contribution_diagnostics]
      cases found : node.child? "field" with
      | none => exact Multiset.zero_le _
      | some field =>
          have share := node.share_le (path ++ [key]) "field"
          rw [Node.share_of_child? (by decide) found, List.append_assoc, List.singleton_append]
            at share
          exact (gather_children_le (diagnostics_formFieldChild_le _)).trans share
  | list =>
      rw [Dispatch.contribution, Logged.diagnostics_bind, Logged.diagnostics_pure, List.append_nil]
      exact gather_children_le (diagnostics_listChild_le _)
  | navigation =>
      rw [Dispatch.contribution, Logged.diagnostics_bind, Logged.diagnostics_pure, List.append_nil]
      exact gather_children_le (diagnostics_navigationChild_le _)
  | transformable => exact diagnostics_expandedChild_le path key node
  | generic => exact (diagnostics_plainChild path key node ▸ le_rfl)

/-- A walk reports nothing but the malformed nodes of the tree, each at its own path, and none
twice. -/
theorem diagnostics_node_le (path : TokenPath) (node : Node) :
    ((Resolve.node path node).diagnostics : Multiset Event) ≤ node.diagnostics path := by
  induction node using Node.induction generalizing path with
  | terminal node terminal =>
      rw [node_terminal path terminal, Node.diagnostics_resolveTerminal path terminal]
  | container children ih =>
      rw [node_container, Logged.diagnostics_map, Node.diagnostics_container]
      apply diagnostics_gather_le
      intro child member
      unfold nodeChild
      split
      · rw [plainChild, Logged.diagnostics_map]
        exact ih child member (path ++ [child.1])
      · exact diagnostics_contribution_le _ path child.1 child.2

end Resolve
end DesignTokens
