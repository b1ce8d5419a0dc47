import DesignTokens.Proofs.Rename
import DesignTokens.Proofs.Resolve.Walk

/-!
# What results are made of

A result is made of the values of terminal nodes and of objects.  The objects of a result have
distinct keys, none of them metadata.  So a property of values that such objects inherit from their
entries holds of every result whose terminal nodes have values with the property.
-/

namespace DesignTokens

/-- The keys of some fields are distinct and no metadata, and every value has a property. -/
structure Fields.Clean (holds : Json → Prop) (fields : Fields Json) : Prop where
  /-- No key appears twice. -/
  distinct : (Fields.keys fields).Nodup
  /-- No key is metadata. -/
  tokens : ∀ entry ∈ fields, isMetadata entry.1 = false
  /-- Every value has the property. -/
  values : ∀ entry ∈ fields, holds entry.2

namespace Fields.Clean

variable {holds : Json → Prop}

theorem nil : Clean holds [] := ⟨List.nodup_nil, by simp, by simp⟩

theorem singleton {key : String} {value : Json} (token : isMetadata key = false)
    (valid : holds value) : Clean holds [(key, value)] :=
  ⟨by simp, by simpa using token, by simpa using valid⟩

theorem keyed {key : String} {result : Option Json} (token : isMetadata key = false)
    (valid : ∀ value ∈ result, holds value) : Clean holds (Resolve.keyed key result) := by
  cases result with
  | none => exact nil
  | some value => exact singleton token (valid value rfl)

theorem append {left right : Fields Json} (cleanLeft : Clean holds left)
    (cleanRight : Clean holds right) (disjoint : ∀ key ∈ keys left, key ∉ keys right) :
    Clean holds (left ++ right) where
  distinct := by
    rw [keys_append]
    exact List.Nodup.append cleanLeft.distinct cleanRight.distinct disjoint
  tokens := List.forall_mem_append.mpr ⟨cleanLeft.tokens, cleanRight.tokens⟩
  values := List.forall_mem_append.mpr ⟨cleanLeft.values, cleanRight.values⟩

theorem merge {left right : Fields Json} (cleanLeft : Clean holds left)
    (cleanRight : Clean holds right) : Clean holds (Fields.merge left right) := by
  have origin : ∀ entry ∈ Fields.merge left right,
      (isMetadata entry.1 = false) ∧ holds entry.2 := by
    intro entry member
    have found := get?_eq_some_of_mem
      (nodup_keys_merge cleanLeft.distinct cleanRight.distinct) member
    rw [get?_merge, Option.or_eq_some_iff] at found
    rcases found with found | ⟨_, found⟩
    · have member := mem_of_get?_eq_some found
      exact ⟨cleanRight.tokens _ member, cleanRight.values _ member⟩
    · have member := mem_of_get?_eq_some found
      exact ⟨cleanLeft.tokens _ member, cleanLeft.values _ member⟩
  exact ⟨nodup_keys_merge cleanLeft.distinct cleanRight.distinct,
    fun entry member => (origin entry member).1, fun entry member => (origin entry member).2⟩

end Fields.Clean

namespace Node

mutual

/-- A property holds of every node that is no container and not below metadata. -/
def Every (terminal : Node → Prop) : Node → Prop
  | .leaf type value => terminal (.leaf type value)
  | .container children => EveryChild terminal children
  | .bare value => terminal (.bare value)
  | .malformed raw malformation => terminal (.malformed raw malformation)

/-- A property holds of every terminal node of the children that are no metadata. -/
def EveryChild (terminal : Node → Prop) : List (String × Node) → Prop
  | [] => True
  | (key, child) :: rest =>
      (isMetadata key = false → Every terminal child) ∧ EveryChild terminal rest

end

variable {terminal : Node → Prop}

theorem every_container_iff (children : List (String × Node)) :
    Every terminal (.container children) ↔
      ∀ child ∈ children, isMetadata child.1 = false → Every terminal child.2 := by
  rw [Every]
  induction children with
  | nil => simp [EveryChild]
  | cons child rest ih => simp [EveryChild, ih]

theorem every_terminal_iff {node : Node} (isTerminal : node.isContainer = false) :
    Every terminal node ↔ terminal node := by
  cases node with
  | container children => exact absurd isTerminal.symm Bool.false_ne_true
  | _ => rw [Every]

theorem Every.of_forall (valid : ∀ node, terminal node) (node : Node) : Every terminal node := by
  induction node using Node.induction with
  | terminal node isTerminal => exact (every_terminal_iff isTerminal).mpr (valid node)
  | container children ih =>
      rw [every_container_iff]
      exact fun child member _ => ih child member

theorem Every.mono {weaker : Node → Prop} (implies : ∀ node, terminal node → weaker node)
    {node : Node} (every : Every terminal node) : Every weaker node := by
  induction node using Node.induction with
  | terminal node isTerminal =>
      exact (every_terminal_iff isTerminal).mpr
        (implies node ((every_terminal_iff isTerminal).mp every))
  | container children ih =>
      rw [every_container_iff] at every ⊢
      exact fun child member token => ih child member (every child member token)

theorem Every.children {node : Node} (every : Every terminal node) :
    Every terminal (.container node.children) := by
  cases node with
  | container children => exact every
  | _ => exact (every_container_iff []).mpr nofun

theorem Every.without {node : Node} (every : Every terminal node) (keys : List String) :
    Every terminal (node.without keys) := by
  cases node with
  | container children =>
      rw [every_container_iff] at every
      rw [Node.without, every_container_iff]
      exact fun child member => every child (List.mem_of_mem_filter member)
  | leaf type value => exact every
  | bare value => exact every
  | malformed raw malformation => exact every

theorem Every.child? {node : Node} (every : Every terminal node) {key : String}
    (token : isMetadata key = false) : ∀ child ∈ node.child? key, Every terminal child := by
  intro child found
  cases node with
  | container children =>
      rw [every_container_iff] at every
      exact every _ (Fields.mem_of_get?_eq_some found) token
  | leaf type value => simp [Node.child?] at found
  | bare value => simp [Node.child?] at found
  | malformed raw malformation => simp [Node.child?] at found

theorem Every.descend? {node : Node} (every : Every terminal node) {keys : List String}
    (tokens : ∀ key ∈ keys, isMetadata key = false) :
    ∀ found ∈ node.descend? keys, Every terminal found := by
  induction keys generalizing node with
  | nil =>
      intro found reached
      simp only [Node.descend?, Option.mem_some_iff] at reached
      exact reached ▸ every
  | cons key keys ih =>
      intro found reached
      obtain ⟨token, tokens⟩ := List.forall_mem_cons.mp tokens
      simp only [Node.descend?, Option.mem_def, Option.bind_eq_some_iff] at reached
      obtain ⟨child, childFound, reached⟩ := reached
      exact ih (every.child? token child childFound) tokens found reached

/-- Every terminal node of a tree has, if any, a value with a property. -/
def Yields (holds : Json → Prop) (node : Node) : Prop :=
  Every (fun terminal => ∀ path, ∀ value ∈ (terminal.resolveTerminal path).value, holds value) node

theorem yields_true (node : Node) : node.Yields fun _ => True :=
  Every.of_forall (fun _ _ _ _ => trivial) node

theorem Yields.ofTerminal {holds : Json → Prop} {node : Node} (yields : Yields holds node)
    (isTerminal : node.isContainer = false) (path : TokenPath) :
    ∀ value ∈ (node.resolveTerminal path).value, holds value :=
  (every_terminal_iff isTerminal).mp yields path

end Node

/-- Both kinds of entries of an expansion are clean, and the flattened ones have names of the rename
table. -/
structure Expansion.Clean (holds : Json → Prop) (expansion : Expansion) : Prop where
  /-- The entries next to the key. -/
  flattened : Fields.Clean holds expansion.flattened
  /-- The entries under the key. -/
  nested : Fields.Clean holds expansion.nested
  /-- The names of the entries next to the key. -/
  names : ∀ entry ∈ expansion.flattened, ∃ rule ∈ Rename.table, rule.name = entry.1

namespace Expansion.Clean

variable {holds : Json → Prop}

theorem empty : Clean holds .empty := ⟨.nil, .nil, by simp [Expansion.empty]⟩

theorem merge {first second : Expansion} (cleanFirst : Clean holds first)
    (cleanSecond : Clean holds second) : Clean holds (first.merge second) where
  flattened := cleanFirst.flattened.merge cleanSecond.flattened
  nested := cleanFirst.nested.merge cleanSecond.nested
  names := by
    intro entry member
    have named := Fields.mem_keys_of_mem member
    rw [Expansion.merge, Fields.mem_keys_merge] at named
    rcases named with named | named
    · obtain ⟨origin, member, same⟩ := List.mem_map.mp named
      exact same ▸ cleanFirst.names origin member
    · obtain ⟨origin, member, same⟩ := List.mem_map.mp named
      exact same ▸ cleanSecond.names origin member

theorem parent_not_mem {expansion : Expansion} (clean : Clean holds expansion) {key : String}
    (parent : Rename.isParent key = true) : key ∉ Fields.keys expansion.flattened := by
  intro named
  obtain ⟨entry, member, same⟩ := List.mem_map.mp named
  obtain ⟨rule, listed, name⟩ := clean.names entry member
  rw [← same, ← name, Rename.isParent_name listed] at parent
  exact Bool.false_ne_true parent

theorem renamed {owner : String} {path : TokenPath} {rule : Rename}
    (listed : rule ∈ Rename.table) {result : Option Json} (valid : ∀ value ∈ result, holds value) :
    Clean holds (Resolve.renamed owner path rule result) := by
  have token := Rename.isMetadata_name listed
  rw [Resolve.renamed]
  split
  · exact empty
  · rename_i value substance
    have valid : holds value := valid value (Resolve.eq_some_of_substantial substance)
    split
    · exact ⟨.singleton token valid, .nil, by simpa using ⟨rule, listed, rfl⟩⟩
    · exact ⟨.nil, .singleton token valid, by simp⟩

/-- The entries of the key and those next to it do not meet. -/
theorem entries_eq {expansion : Expansion} (clean : Clean holds expansion) {key : String}
    (parent : Rename.isParent key = true) :
    expansion.entries key =
      (if expansion.nested.isEmpty then [] else [(key, .object expansion.nested)]) ++
        expansion.flattened := by
  apply Fields.merge_of_disjoint
  intro name member
  split at member
  · simp at member
  · rw [List.mem_singleton.mp member]
    exact clean.parent_not_mem parent

theorem entries {expansion : Expansion} (clean : Clean holds expansion)
    (inherit : ∀ fields, Fields.Clean holds fields → holds (.object fields)) {key : String}
    (parent : Rename.isParent key = true) : Fields.Clean holds (expansion.entries key) := by
  apply Fields.Clean.merge _ clean.flattened
  split
  · exact .nil
  · exact .singleton (Rename.isMetadata_parent parent) (inherit _ clean.nested)

end Expansion.Clean

namespace Resolve

variable {holds : Json → Prop}

theorem gather_clean {contribution : String → Node → Logged (Fields Json)}
    {children : List (String × Node)}
    (clean : ∀ child ∈ children, isMetadata child.1 = false →
      Fields.Clean holds (contribution child.1 child.2).value) :
    Fields.Clean holds (gather contribution children).value := by
  induction children with
  | nil => exact .nil
  | cons child rest ih =>
      obtain ⟨here, others⟩ := List.forall_mem_cons.mp clean
      cases token : isMetadata child.1 with
      | true => simpa only [gather_metadata _ token] using ih others
      | false =>
          rw [gather_token _ token]
          exact (here token).merge (ih others)

theorem expand_clean {owner : String} {path : TokenPath} {children : List (String × Node)}
    (clean : ∀ child ∈ children, isMetadata child.1 = false →
      Expansion.Clean holds (expandChild owner path child.1 child.2).value) :
    Expansion.Clean holds (expand owner path children).value := by
  induction children with
  | nil => exact .empty
  | cons child rest ih =>
      obtain ⟨here, others⟩ := List.forall_mem_cons.mp clean
      cases token : isMetadata child.1 with
      | true => simpa only [expand_metadata _ _ token] using ih others
      | false =>
          rw [expand_token _ _ token]
          exact (here token).merge (ih others)

/-- What the walk without sections makes of a node and of its expansions. -/
private structure TreeHolds (holds : Json → Prop) (node : Node) : Prop where
  tree : ∀ path, ∀ value ∈ (Resolve.tree path node).value, holds value
  expand : ∀ owner path, Expansion.Clean holds (Resolve.expand owner path node.children).value

variable (inherit : ∀ fields, Fields.Clean holds fields → holds (.object fields))

private theorem treeHolds_terminal {node : Node} (yields : node.Yields holds)
    (terminal : node.isContainer = false) : TreeHolds holds node := by
  constructor
  · intro path
    rw [tree_terminal path terminal]
    exact yields.ofTerminal terminal path
  · intro owner path
    rw [Node.children_of_terminal terminal]
    exact .empty

include inherit

private theorem treeChild_holds {node : Node} (part : TreeHolds holds node) (path : TokenPath)
    {key : String} (token : isMetadata key = false) :
    Fields.Clean holds (treeChild path key node).value := by
  rw [treeChild]
  split
  · rename_i parent
    rw [Bool.and_eq_true] at parent
    exact (part.expand _ _).entries inherit parent.2
  · exact .keyed token (part.tree _)

omit inherit in
private theorem expandChild_holds {node : Node} (part : TreeHolds holds node) (owner : String)
    (path : TokenPath) {key : String} (token : isMetadata key = false) :
    Expansion.Clean holds (expandChild owner path key node).value := by
  unfold expandChild
  split
  · rename_i rule _ found
    exact .renamed (Rename.mem_table_of_find? found) (part.tree _)
  · exact part.expand _ _
  · exact ⟨.nil, .keyed token (part.tree _), by simp⟩

private theorem treeHolds {node : Node} (yields : node.Yields holds) : TreeHolds holds node := by
  induction node using Node.induction with
  | terminal node terminal => exact treeHolds_terminal yields terminal
  | container children ih =>
      have parts : ∀ child ∈ children, isMetadata child.1 = false → TreeHolds holds child.2 :=
        fun child member token =>
          ih child member ((Node.every_container_iff children).mp yields child member token)
      constructor
      · intro path
        rw [tree_container]
        simp only [Logged.map_value, Option.mem_some_iff, forall_eq']
        apply inherit
        exact gather_clean fun child member token =>
          treeChild_holds inherit (parts child member token) path token
      · intro owner path
        exact expand_clean fun child member token =>
          expandChild_holds (parts child member token) owner path token

theorem treeChild_clean {node : Node} (yields : node.Yields holds) (path : TokenPath)
    {key : String} (token : isMetadata key = false) :
    Fields.Clean holds (treeChild path key node).value :=
  treeChild_holds inherit (treeHolds inherit yields) path token

theorem expandChild_clean {node : Node} (yields : node.Yields holds) (owner : String)
    (path : TokenPath) {key : String} (token : isMetadata key = false) :
    Expansion.Clean holds (expandChild owner path key node).value :=
  expandChild_holds (treeHolds inherit yields) owner path token

theorem expand_preserves {node : Node} (yields : node.Yields holds) (owner : String)
    (path : TokenPath) : Expansion.Clean holds (expand owner path node.children).value :=
  (treeHolds inherit yields).expand owner path

theorem expandedChild_clean {node : Node} (yields : node.Yields holds) (path : TokenPath)
    {key : String} (parent : Rename.isParent key = true) :
    Fields.Clean holds (expandedChild path key node).value :=
  (expand_preserves inherit yields key (path ++ [key])).entries inherit parent

omit inherit in
/-- A resolver gives values with a property, and objects with clean entries for containers. -/
structure Preserves (holds : Json → Prop) (resolve : Resolver) : Prop where
  /-- Every value has the property. -/
  values : ∀ path node, Node.Yields holds node → ∀ value ∈ (resolve path node).value, holds value
  /-- Containers become objects with clean entries. -/
  containers : ∀ path children, Node.Yields holds (.container children) →
    ∃ entries, (resolve path (.container children)).value = some (.object entries) ∧
      Fields.Clean holds entries

theorem tree_preserves : Preserves holds tree where
  values path _ yields := (treeHolds inherit yields).tree path
  containers path children yields := by
    refine ⟨_, by rw [tree_container]; rfl, gather_clean ?_⟩
    exact fun child member token =>
      treeChild_clean inherit ((Node.every_container_iff children).mp yields child member token)
        path token

omit inherit

/-! ## Reshaped containers -/

/-- The keys of the children that some rows of keys lead through. -/
def heads (rows : List (String × List String)) : List String :=
  rows.filterMap fun row => row.2.head?

/-- Names for values below a node, with the keys that lead to them: the names are distinct, the
first keys are distinct, and nothing is metadata. -/
structure Separate (rows : List (String × List String)) : Prop where
  /-- No name appears twice. -/
  names : (Fields.keys rows).Nodup
  /-- No two values lie below the same child. -/
  heads : (heads rows).Nodup
  /-- Every value lies below a child. -/
  nonempty : ∀ row ∈ rows, row.2 ≠ []
  /-- Neither a name nor a key is metadata. -/
  tokens : ∀ row ∈ rows, ∀ key ∈ row.1 :: row.2, isMetadata key = false

theorem Separate.tail {row : String × List String} {rows : List (String × List String)}
    (separate : Separate (row :: rows)) : Separate rows where
  names := ((Fields.nodup_keys_cons row rows).mp separate.names).2
  heads := separate.heads.sublist ((List.sublist_cons_self row rows).filterMap _)
  nonempty := (List.forall_mem_cons.mp separate.nonempty).2
  tokens := (List.forall_mem_cons.mp separate.tokens).2

theorem separate_paddingParts : Separate paddingParts :=
  ⟨by decide, by decide, by decide, by decide⟩

theorem separate_fontParts : Separate fontParts :=
  ⟨by decide, by decide, by decide, by decide⟩

theorem separate_optionColors : Separate optionColors :=
  ⟨by decide, by decide, by decide, by decide⟩

theorem separate_itemColors : Separate itemColors :=
  ⟨by decide, by decide, by decide, by decide⟩

theorem separate_submenuParts : Separate submenuParts :=
  ⟨by decide, by decide, by decide, by decide⟩

theorem eq_of_mem_keys_keyed {key name : String} {result : Option Json}
    (member : name ∈ Fields.keys (keyed key result)) : name = key := by
  cases result with
  | none => simp [keyed] at member
  | some value => simpa [keyed] using member

theorem keys_parts_subset (resolve : Resolver) (path : TokenPath) (node : Node)
    (rows : List (String × List String)) :
    ∀ key ∈ Fields.keys (parts resolve path node rows).value, key ∈ Fields.keys rows := by
  induction rows with
  | nil => simp [parts]
  | cons row rows ih =>
      intro key member
      simp only [parts, Logged.bind_value, Logged.pure_value, Fields.keys_append,
        List.mem_append] at member
      rcases member with member | member
      · exact eq_of_mem_keys_keyed member ▸ List.mem_cons_self
      · exact List.mem_cons_of_mem _ (ih key member)

variable {resolve : Resolver}

theorem resolveAt_mem (preserves : Preserves holds resolve) {node : Node}
    (yields : node.Yields holds) (path : TokenPath) {keys : List String}
    (tokens : ∀ key ∈ keys, isMetadata key = false) :
    ∀ value ∈ (resolveAt resolve path node keys).value, holds value := by
  rw [resolveAt]
  split
  · rename_i found reached
    exact preserves.values _ _ (Node.Every.descend? yields tokens found reached)
  · simp

theorem parts_clean (preserves : Preserves holds resolve) {node : Node}
    (yields : node.Yields holds) (path : TokenPath) {rows : List (String × List String)}
    (separate : Separate rows) : Fields.Clean holds (parts resolve path node rows).value := by
  induction rows with
  | nil => exact .nil
  | cons row rows ih =>
      obtain ⟨token, tokens⟩ := List.forall_mem_cons.mp (separate.tokens row List.mem_cons_self)
      have fresh := ((Fields.nodup_keys_cons row rows).mp separate.names).1
      apply Fields.Clean.append
        (.keyed token (resolveAt_mem preserves yields path tokens)) (ih separate.tail)
      intro key member named
      rw [eq_of_mem_keys_keyed member] at named
      exact fresh (keys_parts_subset resolve path node rows row.1 named)

theorem plainChild_clean (preserves : Preserves holds resolve) {node : Node}
    (yields : node.Yields holds) (path : TokenPath) {key : String}
    (token : isMetadata key = false) :
    Fields.Clean holds (plainChild resolve path key node).value :=
  .keyed token (preserves.values _ _ yields)

theorem iconColors_clean (preserves : Preserves holds resolve) (path : TokenPath)
    {colors : List (String × List String)} (separate : Separate colors) {node : Option Node}
    (yields : ∀ found ∈ node, found.Yields holds) :
    Fields.Clean holds (iconColors resolve path colors node).value := by
  unfold iconColors
  split
  · exact parts_clean preserves (yields _ rfl) path separate
  · exact .nil

theorem padding_eq_iconColors (resolve : Resolver) (path : TokenPath) (node : Option Node) :
    padding resolve path node = iconColors resolve path paddingParts node := by
  cases node with
  | none => rfl
  | some node => cases node <;> rfl

theorem padding_clean (preserves : Preserves holds resolve) (path : TokenPath)
    {node : Option Node} (yields : ∀ found ∈ node, found.Yields holds) :
    Fields.Clean holds (padding resolve path node).value := by
  rw [padding_eq_iconColors]
  exact iconColors_clean preserves path separate_paddingParts yields

theorem keys_padding_subset (resolve : Resolver) (path : TokenPath) (node : Option Node) :
    ∀ key ∈ Fields.keys (padding resolve path node).value, key ∈ Fields.keys paddingParts := by
  unfold padding
  split
  · exact keys_parts_subset resolve path _ paddingParts
  · simp

variable (inherit : ∀ fields, Fields.Clean holds fields → holds (.object fields))

include inherit

theorem formFieldChild_clean (preserves : Preserves holds resolve) {node : Node}
    (yields : node.Yields holds) (path : TokenPath) {key : String}
    (token : isMetadata key = false) :
    Fields.Clean holds (formFieldChild resolve path key node).value := by
  unfold formFieldChild
  split
  · exact padding_clean preserves _ (by simpa using yields)
  · split
    · apply Fields.Clean.singleton token
      apply inherit
      apply Fields.Clean.append (parts_clean preserves yields _ separate_fontParts)
        (padding_clean preserves _ (Node.Every.child? yields (by decide)))
      intro name font direction
      have font := keys_parts_subset resolve _ _ _ name font
      have direction := keys_padding_subset resolve _ _ name direction
      have disjoint : ∀ name ∈ Fields.keys fontParts, name ∉ Fields.keys paddingParts := by decide
      exact disjoint name font direction
    · split
      · rename_i parent
        rw [Bool.and_eq_true] at parent
        exact expandedChild_clean inherit yields path parent.2
      · exact plainChild_clean preserves yields path token

theorem iconBearer_mem (preserves : Preserves holds resolve) {node : Node}
    (yields : node.Yields holds) (container : node.isContainer = true) (path : TokenPath)
    (apart : List String) {colors : List (String × List String)} (separate : Separate colors) :
    ∀ value ∈ (iconBearer resolve path node apart colors).value, holds value := by
  obtain ⟨children, rfl⟩ := Node.exists_children container
  obtain ⟨entries, resolved, clean⟩ :=
    preserves.containers path _ (Node.Every.without yields apart)
  have icon := iconColors_clean preserves (path ++ ["icon"]) separate
    (Node.Every.child? yields (by decide : isMetadata "icon" = false))
  intro value found
  simp only [iconBearer, Node.without, Logged.bind_value, Logged.pure_value, resolved, withIcon,
    Option.mem_some_iff] at found
  subst found
  apply inherit
  split
  · exact clean
  · rw [Fields.put_eq_merge clean.distinct]
    exact clean.merge (.singleton (by decide) (inherit _ icon))

theorem listChild_clean (preserves : Preserves holds resolve) {node : Node}
    (yields : node.Yields holds) (path : TokenPath) {key : String}
    (token : isMetadata key = false) :
    Fields.Clean holds (listChild resolve path key node).value := by
  unfold listChild
  split
  · rename_i option
    simp only [Bool.and_eq_true, decide_eq_true_eq] at option
    obtain ⟨container, rfl⟩ := option
    apply Fields.Clean.append
      (.keyed token (iconBearer_mem inherit preserves yields container _ _ separate_optionColors))
      (.keyed (by decide) (resolveAt_mem preserves yields _ (by decide)))
    intro name option group
    rw [eq_of_mem_keys_keyed option] at group
    exact absurd (eq_of_mem_keys_keyed group) (by decide)
  · exact plainChild_clean preserves yields path token

theorem navigationChild_clean (preserves : Preserves holds resolve) {node : Node}
    (yields : node.Yields holds) (path : TokenPath) {key : String}
    (token : isMetadata key = false) :
    Fields.Clean holds (navigationChild resolve path key node).value := by
  unfold navigationChild
  split
  · exact parts_clean preserves yields _ separate_submenuParts
  · split
    · rename_i item
      simp only [Bool.and_eq_true, decide_eq_true_eq] at item
      exact .keyed token (iconBearer_mem inherit preserves yields item.1 _ _ separate_itemColors)
    · exact plainChild_clean preserves yields path token

/-! ## Sections -/

theorem reshaped_holds {contribution : String → Node → Logged (Fields Json)}
    (clean : ∀ key child, Node.Yields holds child → isMetadata key = false →
      Fields.Clean holds (contribution key child).value)
    {node : Node} (yields : node.Yields holds) :
    holds (.object (gather contribution node.children).value) := by
  apply inherit
  apply gather_clean
  intro child member token
  cases node with
  | container children =>
      exact clean _ _ ((Node.every_container_iff children).mp yields child member token) token
  | _ => exact absurd member List.not_mem_nil

theorem contribution_clean (preserves : Preserves holds resolve) (rule : Dispatch) {node : Node}
    (yields : node.Yields holds) (path : TokenPath) {key : String}
    (token : isMetadata key = false) (applies : rule.applies path key node = true) :
    Fields.Clean holds (rule.contribution resolve path key node).value := by
  cases rule with
  | form =>
      have field : Node.Yields holds ((node.child? "field").getD (.container [])) := by
        cases found : node.child? "field" with
        | none => simp [Node.Yields, Node.every_container_iff]
        | some child =>
            exact Node.Every.child? yields (by decide : isMetadata "field" = false) child found
      rw [form_contribution_value]
      refine .singleton (by decide) ?_
      apply reshaped_holds inherit _ field
      exact fun _ _ yields => formFieldChild_clean inherit preserves yields (path ++ [key, "field"])
  | list =>
      refine .singleton (by decide : isMetadata "list" = false) ?_
      apply reshaped_holds inherit _ yields
      exact fun _ _ yields => listChild_clean inherit preserves yields (path ++ [key])
  | navigation =>
      refine .singleton (by decide : isMetadata "navigation" = false) ?_
      apply reshaped_holds inherit _ yields
      exact fun _ _ yields => navigationChild_clean inherit preserves yields (path ++ [key])
  | transformable =>
      rw [Dispatch.applies, Bool.and_eq_true] at applies
      exact expandedChild_clean inherit yields path applies.1
  | generic => exact plainChild_clean preserves yields path token

private theorem nodeChild_holds {child : Node} (yields : child.Yields holds)
    (valid : ∀ path, ∀ value ∈ (node path child).value, holds value) (path : TokenPath)
    {key : String} (token : isMetadata key = false) :
    Fields.Clean holds (nodeChild path key child).value := by
  have applies := applies_first path key child
  unfold nodeChild
  split
  · exact .keyed token (valid _)
  · exact contribution_clean inherit (tree_preserves inherit) _ yields path token applies

private theorem node_holds {root : Node} (yields : root.Yields holds) (path : TokenPath) :
    ∀ value ∈ (node path root).value, holds value := by
  induction root using Node.induction generalizing path with
  | terminal root terminal =>
      rw [node_terminal path terminal]
      exact yields.ofTerminal terminal path
  | container children ih =>
      rw [node_container]
      simp only [Logged.map_value, Option.mem_some_iff, forall_eq']
      apply inherit
      apply gather_clean
      intro child member token
      have yields := (Node.every_container_iff children).mp yields child member token
      exact nodeChild_holds inherit yields (ih child member yields) path token

theorem nodeChild_clean {child : Node} (yields : child.Yields holds) (path : TokenPath)
    {key : String} (token : isMetadata key = false) :
    Fields.Clean holds (nodeChild path key child).value :=
  nodeChild_holds inherit yields (node_holds inherit yields) path token

/-- Every result has a property that objects inherit from clean entries, if the values of the
terminal nodes have it. -/
theorem node_preserves : Preserves holds node where
  values path _ yields := node_holds inherit yields path
  containers path children yields := by
    refine ⟨_, by rw [node_container]; rfl, gather_clean ?_⟩
    exact fun child member token =>
      nodeChild_clean inherit ((Node.every_container_iff children).mp yields child member token)
        path token

end Resolve

end DesignTokens
