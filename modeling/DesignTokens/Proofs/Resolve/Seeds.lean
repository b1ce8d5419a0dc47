import DesignTokens.Proofs.Resolve.Rules
import Mathlib.Data.List.Find

/-!
# The path of the root

The path at which a walk begins is only a label.  If two paths are alike for the section roots and
for the rename rules, then the walks that begin at them give the same result and report the same
events, each at the path that it has below the other beginning.  The light and the dark color scheme
are alike, and so are all paths that lead to no section root and whose keys are in no rename rule;
at these the sections have no effect.
-/

namespace DesignTokens

/-- The event with another path, if it has one. -/
def Event.relabel (rename : TokenPath → TokenPath) : Event → Event
  | .tokenUnresolvable path malformation => .tokenUnresolvable (rename path) malformation
  | .formSiblingsIgnored path keys => .formSiblingsIgnored (rename path) keys
  | event => event

namespace Logged

variable {α β : Type}

/-- The same value, with other paths in the events. -/
def relabel (rename : TokenPath → TokenPath) (logged : Logged α) : Logged α :=
  ⟨logged.value, logged.events.map (Event.relabel rename)⟩

@[simp]
theorem relabel_value (rename : TokenPath → TokenPath) (logged : Logged α) :
    (logged.relabel rename).value = logged.value := rfl

@[simp]
theorem relabel_events (rename : TokenPath → TokenPath) (logged : Logged α) :
    (logged.relabel rename).events = logged.events.map (Event.relabel rename) := rfl

theorem relabel_map (rename : TokenPath → TokenPath) (f : α → β) (logged : Logged α) :
    (f <$> logged).relabel rename = f <$> logged.relabel rename := by
  ext1 <;> simp

end Logged

namespace Rename

/-- No key of a path is in the pattern of a rename rule. -/
def Foreign (path : TokenPath) : Prop := ∀ rule ∈ table, ∀ key ∈ path, key ∉ rule.pattern

instance : DecidablePred Foreign := fun path =>
  inferInstanceAs (Decidable (∀ rule ∈ table, ∀ key ∈ path, key ∉ rule.pattern))

/-- Behind foreign keys, a rule sees only the keys that follow. -/
theorem applies_append {path : TokenPath} (foreign : Foreign path) {rule : Rename}
    (listed : rule ∈ table) (keys : TokenPath) :
    rule.applies (path ++ keys) = rule.applies keys := by
  rw [Bool.eq_iff_iff, applies_iff, applies_iff]
  constructor
  · intro ends
    rcases List.suffix_or_suffix_of_suffix ends (List.suffix_append path keys) with within | beyond
    · exact within
    · obtain ⟨front, same⟩ := beyond
      rw [← same, List.suffix_append_self_iff] at ends
      have empty : front = [] := by
        rw [List.eq_nil_iff_forall_not_mem]
        intro key member
        exact foreign rule listed key (ends.subset member) (same ▸ List.mem_append_left keys member)
      rw [← same, empty]
      exact List.suffix_rfl
  · exact fun ends => ends.trans (List.suffix_append path keys)

theorem find?_append {path : TokenPath} (foreign : Foreign path) (keys : TokenPath) :
    find? (path ++ keys) = find? keys :=
  List.find?_congr fun _ listed => applies_append foreign listed keys

end Rename

/-- Renaming paths takes one beginning to another that is alike: what follows a beginning stays, and
section roots and rename rules do not tell the two apart. -/
structure Relabelling (rename : TokenPath → TokenPath) (source target : TokenPath) : Prop where
  /-- The keys behind the beginning stay. -/
  path : ∀ keys, rename (source ++ keys) = target ++ keys
  /-- Both lead to section roots by the same keys. -/
  root : ∀ keys, Dispatch.sectionRoots.contains (target ++ keys) =
    Dispatch.sectionRoots.contains (source ++ keys)
  /-- The same rename rules apply behind both. -/
  rule : ∀ keys, keys ≠ [] → Rename.find? (target ++ keys) = Rename.find? (source ++ keys)

namespace Relabelling

variable {rename : TokenPath → TokenPath} {source target : TokenPath}

theorem below (alike : Relabelling rename source target) (keys : List String) :
    Relabelling rename (source ++ keys) (target ++ keys) where
  path more := by rw [List.append_assoc, List.append_assoc, alike.path]
  root more := by rw [List.append_assoc, List.append_assoc, alike.root]
  rule more present := by
    rw [List.append_assoc, List.append_assoc]
    exact alike.rule _ (List.append_ne_nil_of_right_ne_nil keys present)

theorem here (alike : Relabelling rename source target) : rename source = target := by
  simpa using alike.path []

theorem find?_child (alike : Relabelling rename source target) (key : String) :
    Rename.find? (target ++ [key]) = Rename.find? (source ++ [key]) :=
  alike.rule [key] (List.cons_ne_nil key [])

theorem first_child (alike : Relabelling rename source target) (key : String) (child : Node) :
    Dispatch.first target key child = Dispatch.first source key child := by
  have root : Dispatch.sectionRoots.contains target = Dispatch.sectionRoots.contains source := by
    simpa using alike.root []
  have applies : ∀ rule : Dispatch,
      rule.applies target key child = rule.applies source key child := by
    intro rule
    cases rule <;> simp only [Dispatch.applies, Dispatch.isSectionChild, root]
  simp only [Dispatch.first, applies]

end Relabelling

namespace Resolve

variable {rename : TokenPath → TokenPath} {source target : TokenPath}

/-! ## The walk without sections -/

theorem resolveTerminal_relabel (same : rename source = target) (node : Node) :
    node.resolveTerminal target = (node.resolveTerminal source).relabel rename := by
  subst same
  cases node <;> rfl

theorem gather_relabel {first second : String → Node → Logged (Fields Json)}
    {children : List (String × Node)}
    (relabelled : ∀ child ∈ children,
      second child.1 child.2 = (first child.1 child.2).relabel rename) :
    gather second children = (gather first children).relabel rename := by
  induction children with
  | nil => rfl
  | cons child rest ih =>
      obtain ⟨here, others⟩ := List.forall_mem_cons.mp relabelled
      cases token : isMetadata child.1 with
      | true => rw [gather_metadata _ token, gather_metadata _ token, ih others]
      | false =>
          rw [gather_token _ token, gather_token _ token, here, ih others]
          ext1 <;> simp

/-- What the walk without sections makes of a node and of its expansions is relabelled. -/
private structure TreeRelabels (rename : TokenPath → TokenPath) (node : Node) : Prop where
  tree : ∀ {source target}, Relabelling rename source target →
    Resolve.tree target node = (Resolve.tree source node).relabel rename
  expand : ∀ owner {source target}, Relabelling rename source target →
    target.getLast? = source.getLast? →
    Resolve.expand owner target node.children =
      (Resolve.expand owner source node.children).relabel rename

private theorem treeRelabels_terminal {node : Node} (terminal : node.isContainer = false) :
    TreeRelabels rename node where
  tree alike := by
    rw [tree_terminal _ terminal, tree_terminal _ terminal, resolveTerminal_relabel alike.here]
  expand owner _ _ _ _ := by
    rw [Node.children_of_terminal terminal]
    rfl

private theorem treeChild_relabels {child : Node} (part : TreeRelabels rename child)
    (alike : Relabelling rename source target) (key : String) :
    treeChild target key child = (treeChild source key child).relabel rename := by
  rw [treeChild, treeChild]
  split
  · rw [expandedChild, expandedChild, part.expand key (alike.below [key]) (by simp),
      Logged.relabel_map]
  · rw [plainChild, plainChild, part.tree (alike.below [key]), Logged.relabel_map]

private theorem expandChild_relabels {child : Node} (part : TreeRelabels rename child)
    (owner : String) (alike : Relabelling rename source target)
    (last : target.getLast? = source.getLast?) (key : String) :
    expandChild owner target key child = (expandChild owner source key child).relabel rename := by
  have below := alike.below [key]
  cases found : Rename.find? (source ++ [key]) with
  | some rule =>
      have same : renamed owner target rule = renamed owner source rule := by
        funext value
        simp only [renamed, last]
      rw [expandChild_of_rule owner found,
        expandChild_of_rule owner (alike.find?_child key ▸ found), part.tree below,
        Logged.relabel_map, same]
  | none =>
      have unnamed := (alike.find?_child key).trans found
      cases container : child.isContainer with
      | true =>
          obtain ⟨children, rfl⟩ := Node.exists_children container
          rw [expandChild_of_container owner found, expandChild_of_container owner unnamed]
          exact part.expand owner below (by simp)
      | false =>
          rw [expandChild_of_terminal owner found container,
            expandChild_of_terminal owner unnamed container, part.tree below, Logged.relabel_map]

private theorem treeRelabels (node : Node) : TreeRelabels rename node := by
  induction node using Node.induction with
  | terminal node terminal => exact treeRelabels_terminal terminal
  | container children parts =>
      constructor
      · intro source target alike
        rw [tree_container, tree_container, Logged.relabel_map]
        congr 1
        apply gather_relabel
        exact fun child member => treeChild_relabels (parts child member) alike child.1
      · intro owner source target alike last
        rw [Node.children]
        induction children with
        | nil => rfl
        | cons child rest ih =>
            obtain ⟨here, others⟩ := List.forall_mem_cons.mp parts
            cases token : isMetadata child.1 with
            | true => rw [expand_metadata _ _ token, expand_metadata _ _ token, ih others]
            | false =>
                rw [expand_token _ _ token, expand_token _ _ token, ih others,
                  expandChild_relabels here owner alike last]
                ext1 <;> simp

/-! ## Reshaped containers -/

/-- A resolver gives the same at paths that are alike, and reports it there. -/
def Relabels (rename : TokenPath → TokenPath) (resolve : Resolver) : Prop :=
  ∀ source target, Relabelling rename source target → ∀ node,
    resolve target node = (resolve source node).relabel rename

theorem tree_relabels : Relabels rename tree :=
  fun _ _ alike node => (treeRelabels node).tree alike

theorem expandedChild_relabel (alike : Relabelling rename source target) (key : String)
    (child : Node) :
    expandedChild target key child = (expandedChild source key child).relabel rename := by
  rw [expandedChild, expandedChild, Logged.relabel_map,
    (treeRelabels child).expand key (alike.below [key]) (by simp)]

variable {resolve : Resolver}

theorem plainChild_relabel (relabels : Relabels rename resolve)
    (alike : Relabelling rename source target) (key : String) (child : Node) :
    plainChild resolve target key child =
      (plainChild resolve source key child).relabel rename := by
  rw [plainChild, plainChild, Logged.relabel_map, relabels _ _ (alike.below [key])]

theorem resolveAt_relabel (relabels : Relabels rename resolve)
    (alike : Relabelling rename source target) (node : Node) (keys : List String) :
    resolveAt resolve target node keys =
      (resolveAt resolve source node keys).relabel rename := by
  rw [resolveAt, resolveAt]
  cases node.descend? keys with
  | none => rfl
  | some found => exact relabels _ _ (alike.below keys) found

theorem parts_relabel (relabels : Relabels rename resolve)
    (alike : Relabelling rename source target) (node : Node)
    (rows : List (String × List String)) :
    parts resolve target node rows = (parts resolve source node rows).relabel rename := by
  induction rows with
  | nil => rfl
  | cons row rows ih =>
      rw [parts, parts, ih, resolveAt_relabel relabels alike]
      ext1 <;> simp

theorem iconColors_relabel (relabels : Relabels rename resolve)
    (alike : Relabelling rename source target) (colors : List (String × List String))
    (node : Option Node) :
    iconColors resolve target colors node =
      (iconColors resolve source colors node).relabel rename := by
  unfold iconColors
  split
  · exact parts_relabel relabels alike _ colors
  · rfl

theorem padding_relabel (relabels : Relabels rename resolve)
    (alike : Relabelling rename source target) (node : Option Node) :
    padding resolve target node = (padding resolve source node).relabel rename := by
  unfold padding
  split
  · exact parts_relabel relabels alike _ paddingParts
  · rfl

theorem formFieldChild_relabel (relabels : Relabels rename resolve)
    (alike : Relabelling rename source target) (key : String) (child : Node) :
    formFieldChild resolve target key child =
      (formFieldChild resolve source key child).relabel rename := by
  rw [formFieldChild, formFieldChild]
  split
  · exact padding_relabel relabels (alike.below [key]) (some child)
  · split
    · rw [parts_relabel relabels (alike.below [key]),
        padding_relabel relabels (alike.below [key, "padding"])]
      ext1 <;> simp
    · split
      · exact expandedChild_relabel alike key child
      · exact plainChild_relabel relabels alike key child

theorem iconBearer_relabel (relabels : Relabels rename resolve)
    (alike : Relabelling rename source target) (child : Node) (apart : List String)
    (colors : List (String × List String)) :
    iconBearer resolve target child apart colors =
      (iconBearer resolve source child apart colors).relabel rename := by
  rw [iconBearer, iconBearer, relabels _ _ alike,
    iconColors_relabel relabels (alike.below ["icon"])]
  ext1 <;> simp

theorem listChild_relabel (relabels : Relabels rename resolve)
    (alike : Relabelling rename source target) (key : String) (child : Node) :
    listChild resolve target key child = (listChild resolve source key child).relabel rename := by
  rw [listChild, listChild]
  split
  · rw [iconBearer_relabel relabels (alike.below [key]),
      resolveAt_relabel relabels (alike.below [key])]
    ext1 <;> simp
  · exact plainChild_relabel relabels alike key child

theorem navigationChild_relabel (relabels : Relabels rename resolve)
    (alike : Relabelling rename source target) (key : String) (child : Node) :
    navigationChild resolve target key child =
      (navigationChild resolve source key child).relabel rename := by
  rw [navigationChild, navigationChild]
  split
  · exact parts_relabel relabels (alike.below [key]) child submenuParts
  · split
    · rw [iconBearer_relabel relabels (alike.below [key]), Logged.relabel_map]
    · exact plainChild_relabel relabels alike key child

/-! ## Sections -/

theorem contribution_relabel (relabels : Relabels rename resolve) (rule : Dispatch)
    (alike : Relabelling rename source target) (key : String) (child : Node) :
    rule.contribution resolve target key child =
      (rule.contribution resolve source key child).relabel rename := by
  cases rule with
  | form =>
      have field := alike.below [key, "field"]
      simp only [Dispatch.contribution, formField, ← (alike.below [key]).here,
        gather_relabel fun child _ => formFieldChild_relabel relabels field child.1 child.2]
      split <;> (ext1 <;> simp [Event.relabel])
  | list =>
      rw [Dispatch.contribution, Dispatch.contribution, list, list,
        gather_relabel fun child _ =>
          listChild_relabel relabels (alike.below [key]) child.1 child.2]
      ext1 <;> simp
  | navigation =>
      rw [Dispatch.contribution, Dispatch.contribution, navigation, navigation,
        gather_relabel fun child _ =>
          navigationChild_relabel relabels (alike.below [key]) child.1 child.2]
      ext1 <;> simp
  | transformable => exact expandedChild_relabel alike key child
  | generic => exact plainChild_relabel relabels alike key child

theorem node_relabels : Relabels rename node := by
  intro source target alike root
  induction root using Node.induction generalizing source target with
  | terminal root terminal =>
      rw [node_terminal _ terminal, node_terminal _ terminal, resolveTerminal_relabel alike.here]
  | container children ih =>
      rw [node_container, node_container, Logged.relabel_map]
      congr 1
      apply gather_relabel
      intro child member
      rw [nodeChild, nodeChild, alike.first_child]
      split
      · rw [plainChild, plainChild, Logged.relabel_map, ih child member _ _ (alike.below [child.1])]
      · exact contribution_relabel tree_relabels _ alike child.1 child.2

theorem value_relabel (alike : Relabelling rename source target) (raw : Json) :
    value target raw = (value source raw).relabel rename := by
  by_cases null : raw = .null
  · rw [null]
    rfl
  · rw [value_of_ne_null target null, value_of_ne_null source null, node_relabels _ _ alike]

/-! ## Paths that are alike -/

/-- The path in the other color scheme. -/
def exchangeSchemes : TokenPath → TokenPath
  | pass :: "light" :: keys => pass :: "dark" :: keys
  | pass :: "dark" :: keys => pass :: "light" :: keys
  | path => path

theorem relabelling_schemes :
    Relabelling exchangeSchemes ["semantic", "light"] ["semantic", "dark"] where
  path _ := rfl
  root keys := by
    cases keys with
    | nil => rfl
    | cons key keys => simp [Dispatch.sectionRoots]
  rule keys _ := by
    rw [Rename.find?_append (by decide), Rename.find?_append (by decide)]

/-- The path with another beginning of the same kind. -/
def rebase (source target : TokenPath) (path : TokenPath) : TokenPath :=
  target ++ path.drop source.length

theorem relabelling_rebase (clearSource : Dispatch.Clear source)
    (clearTarget : Dispatch.Clear target) (foreignSource : Rename.Foreign source)
    (foreignTarget : Rename.Foreign target) :
    Relabelling (rebase source target) source target where
  path keys := by rw [rebase, List.drop_left]
  root keys := by rw [(clearTarget.below keys).not_root, (clearSource.below keys).not_root]
  rule keys _ := by rw [Rename.find?_append foreignTarget, Rename.find?_append foreignSource]

/-- The value of a document value at a path, by a resolver for its nodes.  Null has none. -/
def valueBy (resolve : Resolver) (path : TokenPath) : Json → Logged (Option Json)
  | .null => pure none
  | raw => resolve path (.ofJson raw)

theorem valueBy_congr {first second : Resolver} {path : TokenPath}
    (same : ∀ node, first path node = second path node) (raw : Json) :
    valueBy first path raw = valueBy second path raw := by
  cases raw with
  | null => rfl
  | _ => exact same _

/-- The beginning of the path has no effect.  In the dark color scheme a document gives what it
gives in the light one, and what is reported has the other scheme in its path.  Where a path leads
to no section root and its keys are in no rename rule, a document gives what it gives at any other
such path, and what is reported has the other path in front; and this is what every walk gives that
follows the rules without those for form, list and navigation. -/
theorem value_seed_is_label (raw : Json) :
    value ["semantic", "dark"] raw = (value ["semantic", "light"] raw).relabel exchangeSchemes ∧
    ∀ source target, Dispatch.Clear source → Dispatch.Clear target →
      Rename.Foreign source → Rename.Foreign target →
        value target raw = (value source raw).relabel (rebase source target) ∧
        ∀ walk, Follows Dispatch.plainTable walk →
          value source raw = valueBy walk source raw := by
  refine ⟨value_relabel relabelling_schemes raw, ?_⟩
  intro source target clearSource clearTarget foreignSource foreignTarget
  refine ⟨value_relabel
    (relabelling_rebase clearSource clearTarget foreignSource foreignTarget) raw, ?_⟩
  intro walk follows
  rw [follows.unique follows_tree]
  exact valueBy_congr (node_eq_tree clearSource) raw

/-- A list of options, one of which has no value. -/
def optionList : Json := .object [("list", .object [("option", .object [
  ("hover", .object [("color", .object [("$type", .str "color"), ("$value", .str "red")])]),
  ("group", .null)])])]

/-- Among the primitive tokens and in a brand, a list gives the same; it is reshaped in neither, and
the missing value is reported at either path. -/
theorem optionList_seed_is_label :
    (Dispatch.Clear ["primitive"] ∧ Dispatch.Clear ["brand", "web"] ∧
      Rename.Foreign ["primitive"] ∧ Rename.Foreign ["brand", "web"]) ∧
    value ["brand", "web"] optionList =
      (value ["primitive"] optionList).relabel (rebase ["primitive"] ["brand", "web"]) ∧
    value ["primitive"] optionList = valueBy tree ["primitive"] optionList ∧
    valueBy tree ["primitive"] optionList =
      ⟨some (.object [("list", .object [("option", .object [("hoverColor", .str "red")])])]),
        [.tokenUnresolvable ["primitive", "list", "option", "group"] .null]⟩ := by
  have premises : Dispatch.Clear ["primitive"] ∧ Dispatch.Clear ["brand", "web"] ∧
      Rename.Foreign ["primitive"] ∧ Rename.Foreign ["brand", "web"] := by decide
  have ⟨clearSource, clearTarget, foreignSource, foreignTarget⟩ := premises
  obtain ⟨relabelled, plain⟩ := (value_seed_is_label optionList).2 ["primitive"] ["brand", "web"]
    clearSource clearTarget foreignSource foreignTarget
  exact ⟨premises, relabelled, plain tree follows_tree, by rfl⟩

end Resolve
end DesignTokens
