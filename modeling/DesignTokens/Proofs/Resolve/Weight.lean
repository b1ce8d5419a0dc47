import DesignTokens.Proofs.Resolve.Results
import Mathlib.Tactic.Abel

/-!
# Resolution does not grow

A weighing gives a weight to every value and to every terminal node.  If no value of a terminal node
is heavier than the node, then no result is heavier than the tree it comes from: the walkers leave
children out, rename and move them, but use no child twice.
-/

namespace DesignTokens

/-- Weights of keys, of values and of terminal nodes.  An object weighs as much as its entries, and
no terminal node less than its value. -/
structure Weighing (M : Type) [AddCommMonoid M] [LE M] where
  /-- The weight of a key. -/
  key : M
  /-- The weight of a value. -/
  value : Json → M
  /-- The weight of a node that is no container. -/
  terminal : Node → M
  value_object : ∀ entries,
    value (.object entries) = Fields.total (fun part => key + value part) entries
  value_le_terminal : ∀ path node, node.isContainer = false →
    ∀ result ∈ (node.resolveTerminal path).value, value result ≤ terminal node

namespace Weighing

variable {M : Type} [AddCommMonoid M]

section Order

variable [LE M] (weigh : Weighing M)

/-- The weight of some entries. -/
def fields (entries : Fields Json) : M := entries.total fun part => weigh.key + weigh.value part

/-- The weight of a result. -/
def result : Option Json → M
  | none => 0
  | some value => weigh.value value

mutual

/-- The weight of a node: that of its terminal nodes and of its keys, metadata apart. -/
def node : Node → M
  | .leaf type value => weigh.terminal (.leaf type value)
  | .container parts => children parts
  | .bare value => weigh.terminal (.bare value)
  | .malformed raw malformation => weigh.terminal (.malformed raw malformation)

/-- The weight of the children of a container. -/
def children : List (String × Node) → M
  | [] => 0
  | (key, child) :: rest => (if isMetadata key then 0 else weigh.key + node child) + children rest

end

/-- The weight of a child and of its key; metadata has none. -/
private def part (child : String × Node) : M :=
  if isMetadata child.1 then 0 else weigh.key + weigh.node child.2

/-- The weight of the child called `key`, if there is one, and of its key. -/
def share (parent : Node) (key : String) : M :=
  match parent.child? key with
  | some child => weigh.key + weigh.node child
  | none => 0

@[simp]
theorem fields_nil : weigh.fields [] = 0 := rfl

@[simp]
theorem fields_cons (entry : String × Json) (entries : Fields Json) :
    weigh.fields (entry :: entries) = weigh.key + weigh.value entry.2 + weigh.fields entries :=
  Fields.total_cons _ entry entries

@[simp]
theorem fields_append (left right : Fields Json) :
    weigh.fields (left ++ right) = weigh.fields left + weigh.fields right :=
  Fields.total_append _ left right

theorem value_object_eq (entries : Fields Json) :
    weigh.value (.object entries) = weigh.fields entries :=
  weigh.value_object entries

@[simp]
theorem node_container (parts : List (String × Node)) :
    weigh.node (.container parts) = weigh.children parts := by
  rw [node]

theorem node_terminal {node : Node} (terminal : node.isContainer = false) :
    weigh.node node = weigh.terminal node := by
  cases node with
  | container children => exact absurd terminal.symm Bool.false_ne_true
  | _ => rw [Weighing.node]

theorem share_of_child? {parent child : Node} {key : String}
    (found : parent.child? key = some child) :
    weigh.share parent key = weigh.key + weigh.node child := by
  rw [share, found]

private theorem children_eq_measure (parts : List (String × Node)) :
    weigh.children parts = Fields.measure weigh.part parts := by
  induction parts with
  | nil => rfl
  | cons part rest ih => rw [children, Fields.measure_cons, ih, Weighing.part]

private theorem share_eq_share (parent : Node) {key : String} (token : isMetadata key = false) :
    weigh.share parent key = Fields.share weigh.part parent.children key := by
  rw [share, Node.child?_eq_get?, Fields.share]
  cases Fields.get? parent.children key <;> simp [part, token]

theorem fields_keyed_some (key : String) (value : Json) :
    weigh.fields (Resolve.keyed key (some value)) = weigh.key + weigh.value value := by
  simp [Resolve.keyed]

end Order

variable [PartialOrder M] [CanonicallyOrderedAdd M] (weigh : Weighing M)

theorem fields_keyed_le (key : String) (result : Option Json) :
    weigh.fields (Resolve.keyed key result) ≤ weigh.key + weigh.result result := by
  cases result with
  | none => exact zero_le
  | some value => rw [fields_keyed_some, Weighing.result]

theorem result_terminal_le (path : TokenPath) {node : Node} (terminal : node.isContainer = false) :
    weigh.result (node.resolveTerminal path).value ≤ weigh.node node := by
  rw [weigh.node_terminal terminal]
  cases resolved : (node.resolveTerminal path).value with
  | none => exact zero_le
  | some value => exact weigh.value_le_terminal path node terminal value resolved

variable [IsOrderedCancelAddMonoid M]

theorem fields_merge_le {left right : Fields Json} (distinctLeft : (Fields.keys left).Nodup)
    (distinctRight : (Fields.keys right).Nodup) :
    weigh.fields (Fields.merge left right) ≤ weigh.fields left + weigh.fields right :=
  Fields.total_merge_le _ distinctLeft distinctRight

theorem fields_put_le {entries : Fields Json} (distinct : (Fields.keys entries).Nodup)
    (key : String) (value : Json) :
    weigh.fields (Fields.put entries key value) ≤
      weigh.fields entries + (weigh.key + weigh.value value) := by
  rw [Fields.put_eq_merge distinct]
  simpa using weigh.fields_merge_le distinct (Fields.nodup_keys_singleton (key, value))

/-! ## Shares -/

/-- A child and what is left without it weigh no more than the container, for several children. -/
theorem shares_add_without_le (parent : Node) {keys : List String} (distinct : keys.Nodup)
    (tokens : ∀ key ∈ keys, isMetadata key = false) :
    (keys.map (weigh.share parent)).sum + weigh.node (parent.without keys) ≤ weigh.node parent := by
  rw [List.map_congr_left fun key member => weigh.share_eq_share parent (tokens key member)]
  cases parent with
  | container parts =>
      rw [Node.without, node_container, node_container, children_eq_measure, children_eq_measure]
      exact Fields.shares_add_measure_without_le weigh.part parts distinct
  | _ => simp [Node.children, Node.without, Fields.sum_shares_nil]

theorem share_add_without_le (parent : Node) {key : String} (token : isMetadata key = false) :
    weigh.share parent key + weigh.node (parent.without [key]) ≤ weigh.node parent := by
  simpa using weigh.shares_add_without_le parent (List.nodup_singleton key) (by simpa using token)

theorem share_le_node (parent : Node) {key : String} (token : isMetadata key = false) :
    weigh.share parent key ≤ weigh.node parent :=
  le_self_add.trans (weigh.share_add_without_le parent token)

theorem shares_le_node (parent : Node) {keys : List String} (distinct : keys.Nodup)
    (tokens : ∀ key ∈ keys, isMetadata key = false) :
    (keys.map (weigh.share parent)).sum ≤ weigh.node parent :=
  le_self_add.trans (weigh.shares_add_without_le parent distinct tokens)

theorem node_descend?_le {parent : Node} {keys : List String}
    (tokens : ∀ key ∈ keys, isMetadata key = false) {found : Node}
    (reached : parent.descend? keys = some found) : weigh.node found ≤ weigh.node parent := by
  induction keys generalizing parent with
  | nil => exact (congrArg weigh.node (Option.some.inj reached)).ge
  | cons key keys ih =>
      obtain ⟨token, tokens⟩ := List.forall_mem_cons.mp tokens
      obtain ⟨child, childFound, reached⟩ := Option.bind_eq_some_iff.mp reached
      have here := weigh.share_le_node parent token
      rw [weigh.share_of_child? childFound] at here
      exact (ih tokens reached).trans (le_add_self.trans here)

/-! ## Without sections -/

/-- The weight of both kinds of entries of an expansion. -/
def expansion (expansion : Expansion) : M :=
  weigh.fields expansion.flattened + weigh.fields expansion.nested

theorem expansion_merge_le {first second : Expansion}
    (cleanFirst : Expansion.Clean (fun _ => True) first)
    (cleanSecond : Expansion.Clean (fun _ => True) second) :
    weigh.expansion (first.merge second) ≤ weigh.expansion first + weigh.expansion second := by
  rw [expansion, expansion, expansion, add_add_add_comm]
  exact add_le_add
    (weigh.fields_merge_le cleanFirst.flattened.distinct cleanSecond.flattened.distinct)
    (weigh.fields_merge_le cleanFirst.nested.distinct cleanSecond.nested.distinct)

theorem fields_entries_le {expansion : Expansion}
    (clean : Expansion.Clean (fun _ => True) expansion) (key : String) :
    weigh.fields (expansion.entries key) ≤ weigh.key + weigh.expansion expansion := by
  rw [Expansion.entries, Weighing.expansion, add_comm (weigh.fields expansion.flattened),
    ← add_assoc]
  split
  · rw [Fields.nil_merge]
    exact le_add_self
  · have merged := weigh.fields_merge_le
      (Fields.nodup_keys_singleton (key, .object expansion.nested)) clean.flattened.distinct
    simpa [value_object_eq] using merged

omit [IsOrderedCancelAddMonoid M] in
theorem expansion_renamed_le (owner : String) (path : TokenPath) (rule : Rename)
    (result : Option Json) :
    weigh.expansion (Resolve.renamed owner path rule result) ≤ weigh.key + weigh.result result := by
  cases substance : Resolve.substantial result with
  | none => simp [Resolve.renamed, substance, Expansion.empty, expansion]
  | some value =>
      simp only [Resolve.renamed, substance]
      rw [Resolve.eq_some_of_substantial substance, Weighing.result]
      split <;> simp [expansion]

variable {weigh}

theorem fields_gather_le {contribution : String → Node → Logged (Fields Json)}
    {parts : List (String × Node)}
    (clean : ∀ part ∈ parts, isMetadata part.1 = false →
      Fields.Clean (fun _ => True) (contribution part.1 part.2).value)
    (bounded : ∀ part ∈ parts, isMetadata part.1 = false →
      weigh.fields (contribution part.1 part.2).value ≤ weigh.key + weigh.node part.2) :
    weigh.fields (Resolve.gather contribution parts).value ≤ weigh.children parts := by
  induction parts with
  | nil => exact zero_le
  | cons part rest ih =>
      obtain ⟨cleanHere, cleanRest⟩ := List.forall_mem_cons.mp clean
      obtain ⟨boundedHere, boundedRest⟩ := List.forall_mem_cons.mp bounded
      have others := ih cleanRest boundedRest
      rw [children]
      cases token : isMetadata part.1 with
      | true => simpa [Resolve.gather_metadata _ token] using others
      | false =>
          rw [Resolve.gather_token _ token]
          have merged := weigh.fields_merge_le (cleanHere token).distinct
            (Resolve.gather_clean cleanRest).distinct
          simpa using merged.trans (add_le_add (boundedHere token) others)

/-- What the walk without sections makes of a node and of its expansions is no heavier than the
node. -/
private structure TreeBounded (weigh : Weighing M) (node : Node) : Prop where
  tree : ∀ path, weigh.result (Resolve.tree path node).value ≤ weigh.node node
  expand : ∀ owner path,
    weigh.expansion (Resolve.expand owner path node.children).value ≤ weigh.node node

omit [IsOrderedCancelAddMonoid M] in
private theorem treeBounded_terminal {node : Node} (terminal : node.isContainer = false) :
    TreeBounded weigh node := by
  constructor
  · intro path
    rw [Resolve.tree_terminal path terminal]
    exact weigh.result_terminal_le path terminal
  · intro owner path
    rw [Node.children_of_terminal terminal]
    simp [expansion, Expansion.empty]

private theorem expandedChild_bounded {node : Node} (bounded : TreeBounded weigh node)
    (path : TokenPath) (key : String) :
    weigh.fields (Resolve.expandedChild path key node).value ≤ weigh.key + weigh.node node := by
  have clean := Resolve.expand_preserves (fun _ _ => trivial) node.yields_true key (path ++ [key])
  exact (weigh.fields_entries_le clean key).trans
    (add_le_add_right (bounded.expand key (path ++ [key])) _)

private theorem treeChild_bounded {node : Node} (bounded : TreeBounded weigh node)
    (path : TokenPath) (key : String) :
    weigh.fields (Resolve.treeChild path key node).value ≤ weigh.key + weigh.node node := by
  rw [Resolve.treeChild]
  split
  · exact expandedChild_bounded bounded path key
  · exact (weigh.fields_keyed_le key _).trans (add_le_add_right (bounded.tree _) _)

private theorem expandChild_bounded {node : Node} (bounded : TreeBounded weigh node)
    (owner : String) (path : TokenPath) (key : String) :
    weigh.expansion (Resolve.expandChild owner path key node).value ≤
      weigh.key + weigh.node node := by
  unfold Resolve.expandChild
  split
  · exact (weigh.expansion_renamed_le _ _ _ _).trans (add_le_add_right (bounded.tree _) _)
  · exact (bounded.expand _ _).trans le_add_self
  · have own := (weigh.fields_keyed_le key _).trans
      (add_le_add_right (bounded.tree (path ++ [key])) _)
    simpa [expansion] using own

private theorem expandChildren_bounded {parts : List (String × Node)}
    (bounded : ∀ part ∈ parts, TreeBounded weigh part.2) (owner : String) (path : TokenPath) :
    weigh.expansion (Resolve.expand owner path parts).value ≤ weigh.children parts := by
  induction parts with
  | nil => simp [expansion, Expansion.empty]
  | cons part rest ih =>
      obtain ⟨here, others⟩ := List.forall_mem_cons.mp bounded
      rw [children]
      cases token : isMetadata part.1 with
      | true => simpa [Resolve.expand_metadata _ _ token] using ih others
      | false =>
          rw [Resolve.expand_token _ _ token]
          have yields := Node.yields_true (.container rest)
          have merged := weigh.expansion_merge_le
            (Resolve.expandChild_clean (fun _ _ => trivial) part.2.yields_true owner path token)
            (Resolve.expand_preserves (fun _ _ => trivial) yields owner path)
          simpa [Node.children] using merged.trans
            (add_le_add (expandChild_bounded here owner path part.1) (ih others))

private theorem treeBounded (weigh : Weighing M) (node : Node) : TreeBounded weigh node := by
  induction node using Node.induction with
  | terminal node terminal => exact treeBounded_terminal terminal
  | container parts ih =>
      constructor
      · intro path
        rw [Resolve.tree_container, node_container]
        simp only [Logged.map_value, Weighing.result, value_object_eq]
        exact fields_gather_le (fun part _ token =>
          Resolve.treeChild_clean (fun _ _ => trivial) part.2.yields_true path token)
          fun part member _ => treeChild_bounded (ih part member) path part.1
      · intro owner path
        rw [node_container]
        exact expandChildren_bounded ih owner path

variable (weigh)

theorem result_tree_le (path : TokenPath) (node : Node) :
    weigh.result (Resolve.tree path node).value ≤ weigh.node node :=
  (treeBounded weigh node).tree path

theorem expansion_expand_le (owner : String) (path : TokenPath) (node : Node) :
    weigh.expansion (Resolve.expand owner path node.children).value ≤ weigh.node node :=
  (treeBounded weigh node).expand owner path

theorem fields_expandedChild_le (path : TokenPath) (key : String) (node : Node) :
    weigh.fields (Resolve.expandedChild path key node).value ≤ weigh.key + weigh.node node :=
  expandedChild_bounded (treeBounded weigh node) path key

theorem fields_treeChild_le (path : TokenPath) (key : String) (node : Node) :
    weigh.fields (Resolve.treeChild path key node).value ≤ weigh.key + weigh.node node :=
  treeChild_bounded (treeBounded weigh node) path key

theorem expansion_expandChild_le (owner : String) (path : TokenPath) (key : String) (node : Node) :
    weigh.expansion (Resolve.expandChild owner path key node).value ≤
      weigh.key + weigh.node node :=
  expandChild_bounded (treeBounded weigh node) owner path key

/-! ## Reshaped containers -/

theorem fields_plainChild_le (path : TokenPath) (key : String) (node : Node) :
    weigh.fields (Resolve.plainChild Resolve.tree path key node).value ≤
      weigh.key + weigh.node node :=
  (weigh.fields_keyed_le key _).trans (add_le_add_right (weigh.result_tree_le _ node) _)

/-- A value below a child is no heavier than the share of the child. -/
theorem fields_resolveAt_le (path : TokenPath) (node : Node) (name : String) {key : String}
    {keys : List String} (tokens : ∀ name ∈ key :: keys, isMetadata name = false) :
    weigh.fields (Resolve.keyed name
      (Resolve.resolveAt Resolve.tree path node (key :: keys)).value) ≤ weigh.share node key := by
  rw [Resolve.resolveAt]
  cases reached : node.descend? (key :: keys) with
  | none => exact zero_le
  | some found =>
      obtain ⟨child, childFound, reached⟩ := Option.bind_eq_some_iff.mp reached
      have below := weigh.node_descend?_le (List.forall_mem_cons.mp tokens).2 reached
      rw [weigh.share_of_child? childFound]
      exact (weigh.fields_keyed_le name _).trans
        (add_le_add_right ((weigh.result_tree_le _ found).trans below) _)

/-- Parts are no heavier than the children that they lie below. -/
theorem fields_parts_le (path : TokenPath) (node : Node) {rows : List (String × List String)}
    (separate : Resolve.Separate rows) :
    weigh.fields (Resolve.parts Resolve.tree path node rows).value ≤
      ((Resolve.heads rows).map (weigh.share node)).sum := by
  induction rows with
  | nil => exact zero_le
  | cons row rows ih =>
      obtain ⟨name, keys⟩ := row
      have others := ih separate.tail
      obtain ⟨-, tokens⟩ := List.forall_mem_cons.mp (separate.tokens _ List.mem_cons_self)
      cases keys with
      | nil => exact absurd rfl (separate.nonempty _ List.mem_cons_self)
      | cons key keys =>
          have here := weigh.fields_resolveAt_le path node name tokens
          simpa [Resolve.parts, Resolve.heads] using add_le_add here others

theorem fields_parts_le_node (path : TokenPath) (node : Node) {rows : List (String × List String)}
    (separate : Resolve.Separate rows) :
    weigh.fields (Resolve.parts Resolve.tree path node rows).value ≤ weigh.node node := by
  apply (weigh.fields_parts_le path node separate).trans
  apply weigh.shares_le_node node separate.heads
  intro key member
  obtain ⟨row, listed, head⟩ := List.mem_filterMap.mp member
  exact separate.tokens row listed key (List.mem_cons_of_mem _ (List.mem_of_mem_head? head))

/-- The parts of a child, with a key of their own if there are any, are no heavier than the share of
the child. -/
theorem key_add_iconColors_le (path : TokenPath) (parent : Node) (key : String)
    {rows : List (String × List String)} (separate : Resolve.Separate rows)
    (colored : (Resolve.iconColors Resolve.tree path rows (parent.child? key)).value ≠ []) :
    weigh.key + weigh.fields (Resolve.iconColors Resolve.tree path rows (parent.child? key)).value ≤
      weigh.share parent key := by
  cases found : parent.child? key with
  | none => simp [found, Resolve.iconColors] at colored
  | some child =>
      rw [weigh.share_of_child? found]
      apply add_le_add_right
      unfold Resolve.iconColors
      split
      · rename_i equality
        rw [Option.some.inj equality]
        exact weigh.fields_parts_le_node path _ separate
      · exact zero_le

theorem fields_iconColors_le (path : TokenPath) (parent : Node) (key : String)
    {rows : List (String × List String)} (separate : Resolve.Separate rows) :
    weigh.fields (Resolve.iconColors Resolve.tree path rows (parent.child? key)).value ≤
      weigh.share parent key := by
  by_cases empty : (Resolve.iconColors Resolve.tree path rows (parent.child? key)).value = []
  · rw [empty]
    exact zero_le
  · exact le_add_self.trans (weigh.key_add_iconColors_le path parent key separate empty)

theorem fields_formFieldChild_le (path : TokenPath) (key : String) (node : Node) :
    weigh.fields (Resolve.formFieldChild Resolve.tree path key node).value ≤
      weigh.key + weigh.node node := by
  unfold Resolve.formFieldChild
  split
  · unfold Resolve.padding
    split
    · rename_i equality
      rw [Option.some.inj equality]
      exact (weigh.fields_parts_le_node _ _ Resolve.separate_paddingParts).trans le_add_self
    · exact zero_le
  · split
    · -- Fonts and padding lie below different children, whose shares fit into the node together.
      have font := weigh.fields_parts_le (path ++ [key]) node Resolve.separate_fontParts
      have directions := weigh.fields_iconColors_le (path ++ [key, "padding"]) node "padding"
        Resolve.separate_paddingParts
      have distinct : ["font", "padding"].Nodup := by decide
      have shares := weigh.shares_le_node node distinct (by decide)
      rw [← Resolve.padding_eq_iconColors] at directions
      simp only [Resolve.heads, Resolve.fontParts, List.filterMap_cons, List.head?_cons,
        List.filterMap_nil, List.map_cons, List.map_nil, List.sum_cons, List.sum_nil,
        add_zero] at font shares
      simp only [Logged.bind_value, Logged.pure_value, fields_cons, fields_nil, value_object_eq,
        fields_append, add_zero]
      exact add_le_add_right ((add_le_add font directions).trans shares) _
    · split
      · exact weigh.fields_expandedChild_le path key node
      · exact weigh.fields_plainChild_le path key node

/-- An icon bearer is no heavier than what is left of it and its icon. -/
theorem result_iconBearer_le (path : TokenPath) {node : Node} (container : node.isContainer = true)
    (apart : List String) {colors : List (String × List String)}
    (separate : Resolve.Separate colors) :
    weigh.result (Resolve.iconBearer Resolve.tree path node apart colors).value ≤
      weigh.node (node.without apart) + weigh.share node "icon" := by
  obtain ⟨parts, rfl⟩ := Node.exists_children container
  obtain ⟨entries, resolved, clean⟩ :=
    (Resolve.tree_preserves fun _ _ => trivial).containers path (Fields.without parts apart)
      (Node.yields_true _)
  have rest := weigh.result_tree_le path (.container (Fields.without parts apart))
  rw [resolved, Weighing.result, value_object_eq] at rest
  simp only [Resolve.iconBearer, Node.without, Logged.bind_value, Logged.pure_value, resolved,
    Resolve.withIcon, Weighing.result, value_object_eq]
  split
  · exact rest.trans le_self_add
  · rename_i colored
    rw [List.isEmpty_iff] at colored
    have icon := weigh.key_add_iconColors_le (path ++ ["icon"]) (.container parts) "icon"
      separate colored
    apply (weigh.fields_put_le clean.distinct "icon" _).trans
    rw [value_object_eq]
    exact add_le_add rest icon

theorem fields_listChild_le (path : TokenPath) (key : String) (node : Node) :
    weigh.fields (Resolve.listChild Resolve.tree path key node).value ≤
      weigh.key + weigh.node node := by
  unfold Resolve.listChild
  split
  · rename_i option
    simp only [Bool.and_eq_true, decide_eq_true_eq] at option
    have bearer := weigh.result_iconBearer_le (path ++ [key]) option.1 ["group", "icon"]
      Resolve.separate_optionColors
    have group := weigh.fields_resolveAt_le (path ++ [key]) node "optionGroup"
      (by decide : ∀ name ∈ ["group"], isMetadata name = false)
    have distinct : ["group", "icon"].Nodup := by decide
    have shares := weigh.shares_add_without_le node distinct (by decide)
    simp only [Logged.bind_value, Logged.pure_value, fields_append]
    calc
      weigh.fields _ + weigh.fields _
        ≤ weigh.key + (weigh.node (node.without ["group", "icon"]) + weigh.share node "icon") +
            weigh.share node "group" :=
          add_le_add ((weigh.fields_keyed_le key _).trans (add_le_add_right bearer _)) group
      _ = weigh.key + ((["group", "icon"].map (weigh.share node)).sum +
            weigh.node (node.without ["group", "icon"])) := by
          simp only [List.map_cons, List.map_nil, List.sum_cons, List.sum_nil]
          abel
      _ ≤ weigh.key + weigh.node node := add_le_add_right shares _
  · exact weigh.fields_plainChild_le path key node

theorem fields_navigationChild_le (path : TokenPath) (key : String) (node : Node) :
    weigh.fields (Resolve.navigationChild Resolve.tree path key node).value ≤
      weigh.key + weigh.node node := by
  unfold Resolve.navigationChild
  split
  · exact (weigh.fields_parts_le_node _ node Resolve.separate_submenuParts).trans le_add_self
  · split
    · rename_i item
      simp only [Bool.and_eq_true, decide_eq_true_eq] at item
      have bearer := weigh.result_iconBearer_le (path ++ [key]) item.1 ["icon"]
        Resolve.separate_itemColors
      have split := weigh.share_add_without_le node (by decide : isMetadata "icon" = false)
      rw [add_comm] at split
      exact (weigh.fields_keyed_le key _).trans (add_le_add_right (bearer.trans split) _)
    · exact weigh.fields_plainChild_le path key node

/-! ## Sections -/

private theorem value_gather_le {contribution : String → Node → Logged (Fields Json)} {node : Node}
    (clean : ∀ part ∈ node.children, isMetadata part.1 = false →
      Fields.Clean (fun _ => True) (contribution part.1 part.2).value)
    (bounded : ∀ part ∈ node.children, isMetadata part.1 = false →
      weigh.fields (contribution part.1 part.2).value ≤ weigh.key + weigh.node part.2) :
    weigh.value (.object (Resolve.gather contribution node.children).value) ≤ weigh.node node := by
  rw [value_object_eq]
  apply (fields_gather_le clean bounded).trans
  cases node with
  | container parts => rw [Node.children, node_container]
  | _ => exact zero_le

theorem fields_contribution_le (rule : Dispatch) (path : TokenPath) (key : String) (node : Node) :
    weigh.fields (rule.contribution Resolve.tree path key node).value ≤
      weigh.key + weigh.node node := by
  have preserves : Resolve.Preserves (fun _ => True) Resolve.tree :=
    Resolve.tree_preserves fun _ _ => trivial
  cases rule with
  | form =>
      have field : weigh.node ((node.child? "field").getD (.container [])) ≤ weigh.node node := by
        cases found : node.child? "field" with
        | none => simp [children]
        | some child =>
            have share := weigh.share_le_node node (by decide : isMetadata "field" = false)
            rw [weigh.share_of_child? found] at share
            exact le_add_self.trans share
      rw [Resolve.form_contribution_value, fields_cons, fields_nil, add_zero]
      apply add_le_add_right
      refine le_trans ?_ field
      apply value_gather_le
      · exact fun part _ token =>
          Resolve.formFieldChild_clean (fun _ _ => trivial) preserves part.2.yields_true _ token
      · exact fun part _ _ => weigh.fields_formFieldChild_le _ part.1 part.2
  | list =>
      simp only [Dispatch.contribution, Logged.bind_value, Logged.pure_value, fields_cons,
        fields_nil, add_zero]
      apply add_le_add_right
      apply value_gather_le
      · exact fun part _ token =>
          Resolve.listChild_clean (fun _ _ => trivial) preserves part.2.yields_true _ token
      · exact fun part _ _ => weigh.fields_listChild_le _ part.1 part.2
  | navigation =>
      simp only [Dispatch.contribution, Logged.bind_value, Logged.pure_value, fields_cons,
        fields_nil, add_zero]
      apply add_le_add_right
      apply value_gather_le
      · exact fun part _ token =>
          Resolve.navigationChild_clean (fun _ _ => trivial) preserves part.2.yields_true _ token
      · exact fun part _ _ => weigh.fields_navigationChild_le _ part.1 part.2
  | transformable => exact weigh.fields_expandedChild_le path key node
  | generic => exact weigh.fields_plainChild_le path key node

theorem fields_nodeChild_le (path : TokenPath) (key : String) {node : Node}
    (bounded : ∀ path, weigh.result (Resolve.node path node).value ≤ weigh.node node) :
    weigh.fields (Resolve.nodeChild path key node).value ≤ weigh.key + weigh.node node := by
  unfold Resolve.nodeChild
  split
  · exact (weigh.fields_keyed_le key _).trans (add_le_add_right (bounded _) _)
  · exact weigh.fields_contribution_le _ path key node

/-- No result is heavier than the tree that it comes from. -/
theorem result_node_le (path : TokenPath) (node : Node) :
    weigh.result (Resolve.node path node).value ≤ weigh.node node := by
  induction node using Node.induction generalizing path with
  | terminal node terminal =>
      rw [Resolve.node_terminal path terminal]
      exact weigh.result_terminal_le path terminal
  | container parts ih =>
      rw [Resolve.node_container, node_container]
      simp only [Logged.map_value, Weighing.result, value_object_eq]
      apply fields_gather_le
      · exact fun part _ token =>
          Resolve.nodeChild_clean (fun _ _ => trivial) part.2.yields_true path token
      · exact fun part member _ => weigh.fields_nodeChild_le path part.1 (ih part member)

end Weighing
end DesignTokens
