import DesignTokens.Proofs.Rename
import DesignTokens.Proofs.Resolve.Walk

/-!
# Walks by a table of rules

A resolver follows a table of dispatch rules if every child of a container contributes what the
first rule of the table that matches gives, and the resolver itself resolves all nodes below, those
of expansions and of reshaped containers among them.  A table has at most one such resolver.  The
walk with sections follows the whole table, and the walk without sections follows the table without
the rules for form, list and navigation.
-/

namespace DesignTokens
namespace Dispatch

/-- The rules that reshape a container of a section. -/
def isReshaping : Dispatch → Bool
  | form | list | navigation => true
  | transformable | generic => false

/-- The rules without those for form, list and navigation. -/
def plainTable : List Dispatch := table.filter fun rule => !rule.isReshaping

/-- The first of some rules that matches a child. -/
def firstOf (rules : List Dispatch) (path : TokenPath) (key : String) (child : Node) : Dispatch :=
  (rules.find? fun rule => rule.applies path key child).getD generic

theorem firstOf_plainTable (path : TokenPath) (key : String) (child : Node) :
    firstOf plainTable path key child =
      if Rename.isParent key && child.isContainer then transformable else generic := by
  have rules : plainTable = [transformable, generic] := rfl
  rw [firstOf, rules]
  simp only [List.find?, applies]
  cases Rename.isParent key && child.isContainer <;> rfl

end Dispatch

namespace Resolve

mutual

/-- The expansion of the container of `owner`, or of a container below it, at a path, with a
resolver for the tokens in it. -/
def expansionBy (resolve : Resolver) (owner : String) (path : TokenPath) : Node → Logged Expansion
  | .leaf _ _ => pure .empty
  | .container children => expansionsBy resolve owner path children
  | .bare _ => pure .empty
  | .malformed _ _ => pure .empty

/-- What some children of an expanded container contribute together. -/
def expansionsBy (resolve : Resolver) (owner : String) (path : TokenPath) :
    List (String × Node) → Logged Expansion
  | [] => pure .empty
  | (key, child) :: rest =>
      if isMetadata key then expansionsBy resolve owner path rest
      else do
        let here ←
          match Rename.find? (path ++ [key]) with
          | some rule => renamed owner path rule <$> resolve (path ++ [key]) child
          | none =>
              if child.isContainer then expansionBy resolve owner (path ++ [key]) child
              else (fun value => ⟨[], keyed key value⟩) <$> resolve (path ++ [key]) child
        let others ← expansionsBy resolve owner path rest
        return here.merge others

end

/-- What the container of a rename parent contributes, with a resolver for the tokens in it. -/
def expandedBy (resolve : Resolver) (path : TokenPath) (key : String) (child : Node) :
    Logged (Fields Json) :=
  (fun expansion => expansion.entries key) <$> expansionBy resolve key (path ++ [key]) child

/-- What a child of a form field contributes, with a resolver for the nodes in it. -/
def formFieldChildBy (resolve : Resolver) (path : TokenPath) (key : String) (child : Node) :
    Logged (Fields Json) :=
  if child.isContainer && Rename.isParent key then expandedBy resolve path key child
  else formFieldChild resolve path key child

/-- What a child contributes by a rule, with a resolver for all nodes below. -/
def contributionBy (resolve : Resolver) (rule : Dispatch) (path : TokenPath) (key : String)
    (child : Node) : Logged (Fields Json) :=
  match rule with
  | .form => do
      let ignored := Dispatch.ignoredKeys child
      if !ignored.isEmpty then Logged.report (.formSiblingsIgnored (path ++ [key]) ignored)
      let field := (child.child? "field").getD (.container [])
      let entries ← gather (formFieldChildBy resolve (path ++ [key, "field"])) field.children
      return [("formField", .object entries)]
  | .transformable => expandedBy resolve path key child
  | rule => rule.contribution resolve path key child

/-- A resolver follows some rules. -/
structure Follows (rules : List Dispatch) (resolve : Resolver) : Prop where
  /-- A node that is no container has a value of its own. -/
  terminal : ∀ path node, node.isContainer = false →
    resolve path node = node.resolveTerminal path
  /-- A container becomes the object of what its children contribute by the rules. -/
  container : ∀ path children, resolve path (.container children) =
    (fun entries => some (.object entries)) <$> gather (fun key child =>
      contributionBy resolve (Dispatch.firstOf rules path key child) path key child) children

/-! ## Resolvers that agree -/

/-- Two resolvers agree at a path and below on all nodes that are no larger than some size. -/
def Agree (first second : Resolver) (path : TokenPath) (size : Nat) : Prop :=
  ∀ keys node, node.size ≤ size → first (path ++ keys) node = second (path ++ keys) node

variable {first second : Resolver}

theorem Agree.below {path : TokenPath} {size : Nat} (agree : Agree first second path size)
    (keys : List String) {smaller : Nat} (bounded : smaller ≤ size) :
    Agree first second (path ++ keys) smaller := by
  intro more node fits
  rw [List.append_assoc]
  exact agree (keys ++ more) node (fits.trans bounded)

theorem Agree.here {path : TokenPath} {node : Node} (agree : Agree first second path node.size) :
    first path node = second path node := by
  simpa using agree [] node le_rfl

/-- Resolvers that agree on all that lies below the children of a container agree on what it
gathers. -/
theorem gather_agree {firstChild secondChild : TokenPath → String → Node → Logged (Fields Json)}
    (same : ∀ path key child, Agree first second (path ++ [key]) child.size →
      firstChild path key child = secondChild path key child)
    {path : TokenPath} {node : Node} (agree : Agree first second path node.size) :
    gather (firstChild path) node.children = gather (secondChild path) node.children := by
  apply gather_congr
  intro child member
  exact same path child.1 child.2 (agree.below [child.1] (Node.size_lt_of_mem_children member).le)

theorem expansionBy_agree (owner : String) {path : TokenPath} {node : Node}
    (agree : Agree first second path node.size) :
    expansionBy first owner path node = expansionBy second owner path node := by
  induction node using Node.induction generalizing path with
  | terminal node terminal =>
      cases node with
      | container children => exact absurd terminal.symm Bool.false_ne_true
      | _ => rfl
  | container children parts =>
      have below : ∀ child ∈ children, Agree first second (path ++ [child.1]) child.2.size :=
        fun child member => agree.below [child.1] (Node.size_lt_of_mem member).le
      rw [expansionBy, expansionBy]
      clear agree
      induction children with
      | nil => rfl
      | cons child rest ih =>
          obtain ⟨here, others⟩ := List.forall_mem_cons.mp parts
          obtain ⟨agree, elsewhere⟩ := List.forall_mem_cons.mp below
          rw [expansionsBy, expansionsBy, ih others elsewhere, here agree, agree.here]

theorem expandedBy_agree {path : TokenPath} {key : String} {child : Node}
    (agree : Agree first second (path ++ [key]) child.size) :
    expandedBy first path key child = expandedBy second path key child := by
  rw [expandedBy, expandedBy, expansionBy_agree key agree]

theorem plainChild_agree {path : TokenPath} {key : String} {child : Node}
    (agree : Agree first second (path ++ [key]) child.size) :
    plainChild first path key child = plainChild second path key child := by
  rw [plainChild, plainChild, agree.here]

theorem resolveAt_agree {path : TokenPath} {node : Node}
    (agree : Agree first second path node.size) (keys : List String) :
    resolveAt first path node keys = resolveAt second path node keys := by
  rw [resolveAt, resolveAt]
  cases reached : node.descend? keys with
  | none => rfl
  | some found => exact (agree.below keys (Node.size_le_of_descend? reached)).here

theorem parts_agree {path : TokenPath} {node : Node} (agree : Agree first second path node.size)
    (rows : List (String × List String)) :
    parts first path node rows = parts second path node rows := by
  induction rows with
  | nil => rfl
  | cons row rows ih => rw [parts, parts, resolveAt_agree agree, ih]

theorem iconColors_agree {path : TokenPath} (colors : List (String × List String))
    {node : Option Node} (agree : ∀ found ∈ node, Agree first second path found.size) :
    iconColors first path colors node = iconColors second path colors node := by
  unfold iconColors
  split
  · exact parts_agree (agree _ rfl) colors
  · rfl

theorem padding_agree {path : TokenPath} {node : Option Node}
    (agree : ∀ found ∈ node, Agree first second path found.size) :
    padding first path node = padding second path node := by
  unfold padding
  split
  · exact parts_agree (agree _ rfl) paddingParts
  · rfl

theorem formFieldChild_agree {path : TokenPath} {key : String} {child : Node}
    (agree : Agree first second (path ++ [key]) child.size) :
    formFieldChild first path key child = formFieldChild second path key child := by
  have paddings : ∀ found ∈ child.child? "padding",
      Agree first second (path ++ [key, "padding"]) found.size := by
    intro found isChild
    rw [List.append_cons]
    exact agree.below ["padding"] (Node.size_lt_of_child? isChild).le
  rw [formFieldChild, formFieldChild, padding_agree (by simpa using agree), parts_agree agree,
    padding_agree paddings, plainChild_agree agree]

theorem formFieldChildBy_agree {path : TokenPath} {key : String} {child : Node}
    (agree : Agree first second (path ++ [key]) child.size) :
    formFieldChildBy first path key child = formFieldChildBy second path key child := by
  rw [formFieldChildBy, formFieldChildBy, expandedBy_agree agree, formFieldChild_agree agree]

theorem iconBearer_agree {path : TokenPath} {child : Node}
    (agree : Agree first second path child.size) (apart : List String)
    (colors : List (String × List String)) :
    iconBearer first path child apart colors = iconBearer second path child apart colors := by
  have icons : ∀ found ∈ child.child? "icon", Agree first second (path ++ ["icon"]) found.size :=
    fun found isChild => agree.below ["icon"] (Node.size_lt_of_child? isChild).le
  have resolved : first path (child.without apart) = second path (child.without apart) := by
    simpa using agree [] _ (child.size_without_le apart)
  rw [iconBearer, iconBearer, resolved, iconColors_agree colors icons]

theorem listChild_agree {path : TokenPath} {key : String} {child : Node}
    (agree : Agree first second (path ++ [key]) child.size) :
    listChild first path key child = listChild second path key child := by
  rw [listChild, listChild, iconBearer_agree agree, resolveAt_agree agree, plainChild_agree agree]

theorem navigationChild_agree {path : TokenPath} {key : String} {child : Node}
    (agree : Agree first second (path ++ [key]) child.size) :
    navigationChild first path key child = navigationChild second path key child := by
  rw [navigationChild, navigationChild, parts_agree agree, iconBearer_agree agree,
    plainChild_agree agree]

private theorem Agree.field {path : TokenPath} {key : String} {form : Node}
    (agree : Agree first second (path ++ [key]) form.size) :
    Agree first second (path ++ [key, "field"])
      ((form.child? "field").getD (.container [])).size := by
  rw [List.append_cons]
  apply agree.below
  cases found : form.child? "field" with
  | none => exact Nat.zero_le _
  | some field => exact (Node.size_lt_of_child? found).le

theorem contribution_agree (rule : Dispatch) {path : TokenPath} {key : String} {child : Node}
    (agree : Agree first second (path ++ [key]) child.size) :
    rule.contribution first path key child = rule.contribution second path key child := by
  cases rule with
  | form =>
      have fields := gather_agree (fun _ _ _ => formFieldChild_agree) agree.field
      simp only [Dispatch.contribution, formField, fields]
  | list =>
      have entries := gather_agree (fun _ _ _ => listChild_agree) agree
      simp only [Dispatch.contribution, list, entries]
  | navigation =>
      have entries := gather_agree (fun _ _ _ => navigationChild_agree) agree
      simp only [Dispatch.contribution, navigation, entries]
  | transformable => rfl
  | generic => exact plainChild_agree agree

theorem contributionBy_agree (rule : Dispatch) {path : TokenPath} {key : String} {child : Node}
    (agree : Agree first second (path ++ [key]) child.size) :
    contributionBy first rule path key child = contributionBy second rule path key child := by
  cases rule with
  | form =>
      have fields := gather_agree (fun _ _ _ => formFieldChildBy_agree) agree.field
      simp only [contributionBy, fields]
  | list => exact contribution_agree .list agree
  | navigation => exact contribution_agree .navigation agree
  | transformable => exact expandedBy_agree agree
  | generic => exact contribution_agree .generic agree

/-- The rules determine the resolver. -/
theorem Follows.unique {rules : List Dispatch} (follows : Follows rules first)
    (alike : Follows rules second) : first = second := by
  funext path node
  induction bound : node.size using Nat.strong_induction_on generalizing path node with
  | h size ih =>
      subst bound
      cases container : node.isContainer with
      | false => rw [follows.terminal path node container, alike.terminal path node container]
      | true =>
          obtain ⟨children, rfl⟩ := Node.exists_children container
          rw [follows.container, alike.container]
          congr 1
          apply gather_congr
          intro child member
          apply contributionBy_agree
          intro keys found fits
          exact ih found.size (fits.trans_lt (Node.size_lt_of_mem member)) _ found rfl

/-! ## The walks of the pipeline -/

theorem expansionBy_tree (owner : String) (path : TokenPath) (node : Node) :
    expansionBy tree owner path node = expand owner path node.children := by
  induction node using Node.induction generalizing path with
  | terminal node terminal =>
      cases node with
      | container children => exact absurd terminal.symm Bool.false_ne_true
      | _ => rfl
  | container children parts =>
      rw [expansionBy, Node.children]
      induction children with
      | nil => rfl
      | cons child rest ih =>
          obtain ⟨here, others⟩ := List.forall_mem_cons.mp parts
          cases token : isMetadata child.1 with
          | true => rw [expansionsBy, if_pos token, expand_metadata _ _ token, ih others]
          | false =>
              rw [expansionsBy, if_neg (by simp [token]), expand_token _ _ token, ih others]
              cases found : Rename.find? (path ++ [child.1]) with
              | some rule => rw [expandChild_of_rule owner found]
              | none =>
                  cases container : child.2.isContainer with
                  | true =>
                      obtain ⟨children, same⟩ := Node.exists_children container
                      rw [same] at here
                      simp only [if_true, same, here, expandChild_of_container owner found,
                        Node.children]
                  | false =>
                      simp only [Bool.false_eq_true, if_false,
                        expandChild_of_terminal owner found container]

theorem expandedBy_tree (path : TokenPath) (key : String) (child : Node) :
    expandedBy tree path key child = expandedChild path key child := by
  rw [expandedBy, expandedChild, expansionBy_tree]

/-- No rename parent has a special meaning in a form field. -/
theorem formFieldChildBy_tree (path : TokenPath) (key : String) (child : Node) :
    formFieldChildBy tree path key child = formFieldChild tree path key child := by
  have parents : ∀ key ∈ "padding" :: sizeKeys, Rename.isParent key = false := by decide
  rw [formFieldChildBy]
  split
  · rename_i parent
    have other : key ∉ "padding" :: sizeKeys := by
      intro member
      simp [parents key member] at parent
    rw [List.mem_cons, not_or] at other
    obtain ⟨notPadding, notSize⟩ := other
    rw [expandedBy_tree, formFieldChild, if_neg (by simp [notPadding]), if_neg (by simp [notSize]),
      if_pos parent]
  · rfl

theorem contributionBy_tree (rule : Dispatch) (path : TokenPath) (key : String) (child : Node) :
    contributionBy tree rule path key child = rule.contribution tree path key child := by
  cases rule with
  | form =>
      have same : ∀ path, formFieldChildBy tree path = formFieldChild tree path :=
        fun path => funext₂ (formFieldChildBy_tree path)
      simp only [contributionBy, Dispatch.contribution, formField, same]
  | transformable => exact expandedBy_tree path key child
  | _ => rfl

/-- The walk without sections follows the table without the rules for sections. -/
theorem follows_tree : Follows Dispatch.plainTable tree where
  terminal path _ terminal := tree_terminal path terminal
  container path children := by
    rw [tree_container]
    congr 1
    apply gather_congr
    intro child _
    rw [contributionBy_tree, Dispatch.firstOf_plainTable, treeChild, Bool.and_comm]
    cases Rename.isParent child.1 && child.2.isContainer <;> rfl

end Resolve

namespace Dispatch

theorem Clear.below {path : TokenPath} (clear : Clear path) (keys : List String) :
    Clear (path ++ keys) :=
  fun root member leads => clear root member ((List.prefix_append path keys).trans leads)

theorem Clear.of_mem {path : TokenPath} {key : String} (member : key ∈ path)
    (foreign : ∀ root ∈ sectionRoots, key ∉ root) : Clear path :=
  fun root listed leads => foreign root listed (leads.subset member)

/-- Every rule but plain resolution matches only children below which there are no sections. -/
theorem clear_of_applies {rule : Dispatch} {path : TokenPath} {key : String} {child : Node}
    (applies : rule.applies path key child = true) (special : rule ≠ generic) :
    Clear (path ++ [key]) := by
  have named : key ∈ sectionKeys ∨ Rename.isParent key = true := by
    cases rule <;> simp_all [Dispatch.applies, isSectionChild, sectionKeys]
  have foreign : ∀ key ∈ sectionKeys ++ Rename.parents, ∀ root ∈ sectionRoots, key ∉ root := by
    decide
  apply Clear.of_mem (List.mem_append_right path (List.mem_singleton_self key))
  apply foreign
  rw [List.mem_append]
  exact named.imp_right List.contains_iff_mem.mp

end Dispatch

namespace Resolve

/-- The walk with sections follows the whole table. -/
theorem follows_node : Follows Dispatch.table node where
  terminal path _ terminal := node_terminal path terminal
  container path children := by
    rw [node_container]
    congr 1
    apply gather_congr
    intro child _
    have applies := applies_first path child.1 child.2
    have same : Dispatch.firstOf Dispatch.table path child.1 child.2 =
        Dispatch.first path child.1 child.2 := rfl
    rw [same, nodeChild]
    cases rule : Dispatch.first path child.1 child.2 with
    | generic => rfl
    | _ =>
        rw [rule] at applies
        have clear := Dispatch.clear_of_applies applies (by decide)
        have agree : Agree node tree (path ++ [child.1]) child.2.size :=
          fun keys below _ => node_eq_tree (clear.below keys) below
        rw [contributionBy_agree _ agree, contributionBy_tree]

end Resolve
end DesignTokens
