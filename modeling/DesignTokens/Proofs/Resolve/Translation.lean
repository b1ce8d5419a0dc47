import DesignTokens.Proofs.Resolve.Results

/-!
# Translated trees

A translation leaves out the metadata of a tree and replaces its terminal nodes.  If each terminal
node it meets reports what it reported before, and has its value changed by a function on scalars,
then every walk over the translated tree reports the same events, in the same order, and its result
is changed by that function and by nothing else: no walk looks at a scalar or at metadata.
-/

namespace DesignTokens

namespace Json

mutual

/-- A value with a function applied to each of its scalars. -/
def mapScalars (f : Scalar → Scalar) : Json → Json
  | .null => .null
  | .scalar value => .scalar (f value)
  | .list items => .list (itemsMapScalars f items)
  | .object entries => .object (entriesMapScalars f entries)

/-- The items of a list with a function applied to each of their scalars. -/
def itemsMapScalars (f : Scalar → Scalar) : List Json → List Json
  | [] => []
  | item :: rest => mapScalars f item :: itemsMapScalars f rest

/-- The entries of an object with a function applied to each of their scalars. -/
def entriesMapScalars (f : Scalar → Scalar) : List (String × Json) → List (String × Json)
  | [] => []
  | (key, value) :: rest => (key, mapScalars f value) :: entriesMapScalars f rest

end

theorem mapScalars_object (f : Scalar → Scalar) (entries : Fields Json) :
    mapScalars f (.object entries) = .object (Fields.mapValues (mapScalars f) entries) := by
  rw [mapScalars]
  congr 1
  induction entries with
  | nil => rfl
  | cons entry rest ih => rw [entriesMapScalars, ih, Fields.mapValues_cons]

theorem mapScalars_list (f : Scalar → Scalar) (items : List Json) :
    mapScalars f (.list items) = .list (items.map (mapScalars f)) := by
  rw [mapScalars]
  congr 1
  induction items with
  | nil => rfl
  | cons item rest ih => rw [itemsMapScalars, ih, List.map_cons]

@[simp]
theorem mapScalars_id (value : Json) : mapScalars id value = value := by
  induction value using Json.induction with
  | null => rfl
  | scalar value => rfl
  | list items ih => rw [mapScalars_list, List.map_congr_left ih, List.map_id']
  | object entries ih => rw [mapScalars_object, Fields.mapValues_eq_self ih]

end Json

/-- The expansion with a function applied to the value of every entry. -/
def Expansion.mapValues (f : Json → Json) (expansion : Expansion) : Expansion :=
  ⟨Fields.mapValues f expansion.flattened, Fields.mapValues f expansion.nested⟩

/-- A function on terminal nodes, and a function on scalars that says how it changes their
values. -/
structure Translation where
  /-- What a terminal node is replaced by. -/
  terminal : Node → Node
  /-- What a scalar of a result is replaced by. -/
  scalar : Scalar → Scalar
  /-- No terminal node is replaced by a container. -/
  isContainer_terminal : ∀ node, node.isContainer = false → (terminal node).isContainer = false

namespace Translation

variable (translation : Translation)

mutual

/-- The translation of a tree. -/
def node : Node → Node
  | .leaf type value => translation.terminal (.leaf type value)
  | .container children => .container (tokens children)
  | .bare value => translation.terminal (.bare value)
  | .malformed raw malformation => translation.terminal (.malformed raw malformation)

/-- The translations of the children that are no metadata. -/
def tokens : List (String × Node) → List (String × Node)
  | [] => []
  | (key, child) :: rest =>
      if isMetadata key then tokens rest else (key, node child) :: tokens rest

end

/-- The translation of a result. -/
def result : Option Json → Option Json := Option.map (Json.mapScalars translation.scalar)

/-- The translation of the entries of a result. -/
def entries : Fields Json → Fields Json := Fields.mapValues (Json.mapScalars translation.scalar)

/-- The translation of an expansion. -/
def expansion : Expansion → Expansion := Expansion.mapValues (Json.mapScalars translation.scalar)

/-- A terminal node reports the same before and after, and its value is translated. -/
def Respects (node : Node) : Prop :=
  ∀ path, (translation.terminal node).resolveTerminal path =
    translation.result <$> node.resolveTerminal path

/-! ## Translated trees -/

theorem node_terminal {node : Node} (terminal : node.isContainer = false) :
    translation.node node = translation.terminal node := by
  cases node with
  | container children => exact absurd terminal.symm Bool.false_ne_true
  | _ => rw [Translation.node]

@[simp]
theorem node_container (children : List (String × Node)) :
    translation.node (.container children) = .container (translation.tokens children) := by
  rw [node]

@[simp]
theorem isContainer_node (node : Node) :
    (translation.node node).isContainer = node.isContainer := by
  cases container : node.isContainer with
  | true =>
      obtain ⟨children, rfl⟩ := Node.exists_children container
      rw [node_container, Node.isContainer]
  | false =>
      rw [translation.node_terminal container, translation.isContainer_terminal node container]

@[simp]
theorem children_node (node : Node) :
    (translation.node node).children = translation.tokens node.children := by
  cases container : node.isContainer with
  | true =>
      obtain ⟨children, rfl⟩ := Node.exists_children container
      rw [node_container, Node.children, Node.children]
  | false =>
      have untouched : (translation.node node).isContainer = false := by
        rw [isContainer_node, container]
      rw [Node.children_of_terminal container, Node.children_of_terminal untouched, tokens]

@[simp]
theorem tokens_nil : translation.tokens [] = [] := by
  rw [tokens]

theorem tokens_metadata {key : String} (metadata : isMetadata key = true) (child : Node)
    (rest : List (String × Node)) :
    translation.tokens ((key, child) :: rest) = translation.tokens rest := by
  rw [tokens, if_pos metadata]

theorem tokens_token {key : String} (token : isMetadata key = false) (child : Node)
    (rest : List (String × Node)) :
    translation.tokens ((key, child) :: rest) =
      (key, translation.node child) :: translation.tokens rest := by
  rw [tokens, if_neg (by simp [token])]

theorem tokens_eq (children : List (String × Node)) :
    translation.tokens children =
      Fields.mapValues translation.node (children.filter fun child => !isMetadata child.1) := by
  induction children with
  | nil => rw [tokens_nil]; rfl
  | cons child rest ih =>
      obtain ⟨key, child⟩ := child
      cases token : isMetadata key with
      | true => rw [tokens_metadata _ token, ih, List.filter_cons_of_neg (by simp [token])]
      | false =>
          rw [tokens_token _ token, ih, List.filter_cons_of_pos (by simp [token]),
            Fields.mapValues_cons]

theorem get?_tokens {key : String} (token : isMetadata key = false)
    (children : List (String × Node)) :
    Fields.get? (translation.tokens children) key =
      (Fields.get? children key).map translation.node := by
  induction children with
  | nil => rw [tokens_nil]; rfl
  | cons child rest ih =>
      obtain ⟨name, child⟩ := child
      cases metadata : isMetadata name with
      | true =>
          have other : ¬name = key := fun same => by simp [same, token] at metadata
          rw [tokens_metadata _ metadata, ih, Fields.get?, if_neg other]
      | false =>
          rw [tokens_token _ metadata, Fields.get?, Fields.get?, ih]
          split <;> rfl

theorem child?_node {key : String} (token : isMetadata key = false) (node : Node) :
    (translation.node node).child? key = (node.child? key).map translation.node := by
  rw [Node.child?_eq_get?, Node.child?_eq_get?, children_node, translation.get?_tokens token]

theorem descend?_node {keys : List String} (tokens : ∀ key ∈ keys, isMetadata key = false)
    (node : Node) :
    (translation.node node).descend? keys = (node.descend? keys).map translation.node := by
  induction keys generalizing node with
  | nil => rfl
  | cons key keys ih =>
      obtain ⟨token, tokens⟩ := List.forall_mem_cons.mp tokens
      rw [Node.descend?, Node.descend?, translation.child?_node token, Option.bind_map,
        Option.map_bind]
      congr 1
      exact funext (ih tokens)

theorem without_node (keys : List String) {node : Node} (container : node.isContainer = true) :
    (translation.node node).without keys = translation.node (node.without keys) := by
  obtain ⟨children, rfl⟩ := Node.exists_children container
  rw [node_container, Node.without, Node.without, node_container, tokens_eq, tokens_eq,
    Fields.without, Fields.without, Fields.mapValues, Fields.mapValues, List.filter_map,
    List.filter_filter, List.filter_filter]
  simp only [Function.comp_def, Bool.and_comm]

theorem ignoredKeys_node (node : Node) :
    Dispatch.ignoredKeys (translation.node node) = Dispatch.ignoredKeys node := by
  have keys : Fields.keys (translation.tokens node.children) =
      (Fields.keys node.children).filter fun key => !isMetadata key := by
    rw [tokens_eq, Fields.keys, Fields.keys, Fields.mapValues, List.map_map, List.filter_map]
    rfl
  rw [Dispatch.ignoredKeys, Dispatch.ignoredKeys, children_node, keys, List.filter_filter]
  simp only [Bool.and_assoc, Bool.and_self]

theorem first_node (path : TokenPath) (key : String) (node : Node) :
    Dispatch.first path key (translation.node node) = Dispatch.first path key node := by
  have applies : ∀ rule : Dispatch,
      rule.applies path key (translation.node node) = rule.applies path key node := by
    intro rule
    cases rule <;> simp [Dispatch.applies, Dispatch.isSectionChild]
  simp only [Dispatch.first, applies]

/-! ## Translated results -/

@[simp]
theorem entries_nil : translation.entries [] = [] := rfl

theorem result_object (entries : Fields Json) :
    translation.result (some (.object entries)) = some (.object (translation.entries entries)) :=
  congrArg some (Json.mapScalars_object translation.scalar entries)

theorem entries_keyed (key : String) (value : Option Json) :
    translation.entries (Resolve.keyed key value) =
      Resolve.keyed key (translation.result value) := by
  cases value <;> rfl

theorem entries_object (key : String) (entries : Fields Json) :
    translation.entries [(key, .object entries)] = [(key, .object (translation.entries entries))] :=
  congrArg (fun value => [(key, value)]) (Json.mapScalars_object translation.scalar entries)

theorem entries_append (left right : Fields Json) :
    translation.entries (left ++ right) = translation.entries left ++ translation.entries right :=
  Fields.mapValues_append _ left right

theorem entries_merge (left right : Fields Json) :
    translation.entries (Fields.merge left right) =
      Fields.merge (translation.entries left) (translation.entries right) :=
  (Fields.merge_mapValues _ left right).symm

theorem expansion_mk (flattened nested : Fields Json) :
    translation.expansion ⟨flattened, nested⟩ =
      ⟨translation.entries flattened, translation.entries nested⟩ := rfl

theorem expansion_merge (first second : Expansion) :
    translation.expansion (first.merge second) =
      (translation.expansion first).merge (translation.expansion second) := by
  rw [Expansion.merge, expansion_mk, entries_merge, entries_merge]
  rfl

theorem entries_expansion (expansion : Expansion) (key : String) :
    translation.entries (expansion.entries key) =
      (translation.expansion expansion).entries key := by
  obtain ⟨flattened, nested⟩ := expansion
  have empty : (translation.entries nested).isEmpty = nested.isEmpty := Fields.isEmpty_mapValues _ _
  rw [expansion_mk, Expansion.entries, Expansion.entries, entries_merge, empty]
  split
  · rfl
  · rw [entries_object]

/-- A value is translated to an empty object only if it is one. -/
theorem substantial_result (value : Option Json) :
    Resolve.substantial (translation.result value) =
      translation.result (Resolve.substantial value) := by
  match value with
  | none => rfl
  | some .null => rfl
  | some (.scalar _) => rfl
  | some (.list _) => rfl
  | some (.object []) => rfl
  | some (.object (_ :: _)) => rfl

theorem expansion_renamed (owner : String) (parent : TokenPath) (rule : Rename)
    (value : Option Json) :
    translation.expansion (Resolve.renamed owner parent rule value) =
      Resolve.renamed owner parent rule (translation.result value) := by
  rw [Resolve.renamed, Resolve.renamed, substantial_result]
  cases Resolve.substantial value with
  | none => rfl
  | some value =>
      simp only [result, Option.map_some]
      split <;> rfl

theorem entries_put (entries : Fields Json) (key : String) (below : Fields Json) :
    translation.entries (Fields.put entries key (.object below)) =
      Fields.put (translation.entries entries) key (.object (translation.entries below)) := by
  have assigned := Fields.put_mapValues (Json.mapScalars translation.scalar) entries key
    (.object below)
  rw [Json.mapScalars_object] at assigned
  exact assigned.symm

theorem result_withIcon (resolved : Option Json) (colors : Fields Json) :
    translation.result (Resolve.withIcon resolved colors) =
      Resolve.withIcon (translation.result resolved) (translation.entries colors) := by
  have empty : (translation.entries colors).isEmpty = colors.isEmpty :=
    Fields.isEmpty_mapValues _ _
  match resolved with
  | none => rfl
  | some .null => rfl
  | some (.scalar _) => rfl
  | some (.list _) => rfl
  | some (.object entries) =>
      rw [Resolve.withIcon, result_object, result_object, Resolve.withIcon, empty]
      split
      · rfl
      · rw [entries_put]

end Translation

namespace Resolve

variable {translation : Translation}

/-! ## The walk without sections -/

/-- What each child contributes is translated, and so is what they contribute together. -/
theorem gather_tokens {contribution : String → Node → Logged (Fields Json)}
    {children : List (String × Node)}
    (translated : ∀ child ∈ children, isMetadata child.1 = false →
      contribution child.1 (translation.node child.2) =
        translation.entries <$> contribution child.1 child.2) :
    gather contribution (translation.tokens children) =
      translation.entries <$> gather contribution children := by
  induction children with
  | nil => rw [Translation.tokens_nil]; rfl
  | cons child rest ih =>
      obtain ⟨key, child⟩ := child
      obtain ⟨here, others⟩ := List.forall_mem_cons.mp translated
      cases token : isMetadata key with
      | true => rw [translation.tokens_metadata token, gather_metadata _ token, ih others]
      | false =>
          rw [translation.tokens_token token, gather_token _ token, gather_token _ token,
            here token, ih others]
          ext1 <;> simp [Translation.entries_merge]

/-- What the walk without sections makes of a node and of its expansions is translated. -/
private structure TreeTranslates (translation : Translation) (node : Node) : Prop where
  tree : ∀ path, Resolve.tree path (translation.node node) =
    translation.result <$> Resolve.tree path node
  expand : ∀ owner path, Resolve.expand owner path (translation.tokens node.children) =
    translation.expansion <$> Resolve.expand owner path node.children

private theorem treeTranslates_terminal {node : Node} (respects : translation.Respects node)
    (terminal : node.isContainer = false) : TreeTranslates translation node := by
  have untouched : (translation.node node).isContainer = false := by
    rw [Translation.isContainer_node, terminal]
  constructor
  · intro path
    rw [tree_terminal path untouched, tree_terminal path terminal,
      translation.node_terminal terminal, respects path]
  · intro owner path
    rw [Node.children_of_terminal terminal, Translation.tokens_nil]
    rfl

private theorem treeChild_translates {node : Node} (part : TreeTranslates translation node)
    (path : TokenPath) (key : String) :
    treeChild path key (translation.node node) =
      translation.entries <$> treeChild path key node := by
  rw [treeChild, treeChild, Translation.isContainer_node]
  split
  · rw [expandedChild, expandedChild, Translation.children_node, part.expand]
    ext1 <;> simp [Translation.entries_expansion]
  · rw [plainChild, plainChild, part.tree]
    ext1 <;> simp [Translation.entries_keyed]

private theorem expandChild_translates {node : Node} (part : TreeTranslates translation node)
    (owner : String) (path : TokenPath) (key : String) :
    expandChild owner path key (translation.node node) =
      translation.expansion <$> expandChild owner path key node := by
  cases found : Rename.find? (path ++ [key]) with
  | some rule =>
      rw [expandChild_of_rule owner found, expandChild_of_rule owner found, part.tree]
      ext1 <;> simp [Translation.expansion_renamed]
  | none =>
      cases container : node.isContainer with
      | true =>
          obtain ⟨children, rfl⟩ := Node.exists_children container
          rw [Translation.node_container, expandChild_of_container owner found,
            expandChild_of_container owner found]
          exact part.expand owner (path ++ [key])
      | false =>
          have untouched : (translation.node node).isContainer = false := by
            rw [Translation.isContainer_node, container]
          rw [expandChild_of_terminal owner found container,
            expandChild_of_terminal owner found untouched, part.tree]
          ext1 <;> simp [Translation.expansion_mk, Translation.entries_keyed]

private theorem expand_tokens {owner : String} {path : TokenPath} {children : List (String × Node)}
    (parts : ∀ child ∈ children, isMetadata child.1 = false →
      TreeTranslates translation child.2) :
    expand owner path (translation.tokens children) =
      translation.expansion <$> expand owner path children := by
  induction children with
  | nil => rw [Translation.tokens_nil]; rfl
  | cons child rest ih =>
      obtain ⟨key, child⟩ := child
      obtain ⟨here, others⟩ := List.forall_mem_cons.mp parts
      cases token : isMetadata key with
      | true => rw [translation.tokens_metadata token, expand_metadata _ _ token, ih others]
      | false =>
          rw [translation.tokens_token token, expand_token _ _ token, expand_token _ _ token,
            expandChild_translates (here token), ih others]
          ext1 <;> simp [Translation.expansion_merge]

private theorem treeTranslates {node : Node} (respects : node.Every translation.Respects) :
    TreeTranslates translation node := by
  induction node using Node.induction with
  | terminal node terminal =>
      exact treeTranslates_terminal ((Node.every_terminal_iff terminal).mp respects) terminal
  | container children ih =>
      have parts : ∀ child ∈ children, isMetadata child.1 = false →
          TreeTranslates translation child.2 := by
        intro child member token
        exact ih child member ((Node.every_container_iff children).mp respects child member token)
      constructor
      · intro path
        rw [Translation.node_container, tree_container, tree_container,
          gather_tokens fun child member token =>
            treeChild_translates (parts child member token) path child.1]
        ext1 <;> simp [Translation.result_object]
      · intro owner path
        exact expand_tokens parts

/-- The expansion of a translated tree is the translated expansion. -/
theorem expand_children_node {node : Node} (respects : node.Every translation.Respects)
    (owner : String) (path : TokenPath) :
    expand owner path (translation.node node).children =
      translation.expansion <$> expand owner path node.children := by
  rw [Translation.children_node, (treeTranslates respects).expand]

/-! ## Reshaped containers -/

/-- A resolver makes of translated trees the translation of what it makes of trees. -/
def Commutes (translation : Translation) (resolve : Resolver) : Prop :=
  ∀ path node, node.Every translation.Respects →
    resolve path (translation.node node) = translation.result <$> resolve path node

theorem tree_commutes : Commutes translation tree :=
  fun path _ respects => (treeTranslates respects).tree path

theorem expandedChild_node {node : Node} (respects : node.Every translation.Respects)
    (path : TokenPath) (key : String) :
    expandedChild path key (translation.node node) =
      translation.entries <$> expandedChild path key node := by
  rw [expandedChild, expandedChild, expand_children_node respects]
  ext1 <;> simp [Translation.entries_expansion]

variable {resolve : Resolver}

theorem plainChild_node (commutes : Commutes translation resolve) {node : Node}
    (respects : node.Every translation.Respects) (path : TokenPath) (key : String) :
    plainChild resolve path key (translation.node node) =
      translation.entries <$> plainChild resolve path key node := by
  rw [plainChild, plainChild, commutes _ _ respects]
  ext1 <;> simp [Translation.entries_keyed]

theorem resolveAt_node (commutes : Commutes translation resolve) {node : Node}
    (respects : node.Every translation.Respects) (path : TokenPath) {keys : List String}
    (tokens : ∀ key ∈ keys, isMetadata key = false) :
    resolveAt resolve path (translation.node node) keys =
      translation.result <$> resolveAt resolve path node keys := by
  rw [resolveAt, resolveAt, translation.descend?_node tokens]
  cases reached : node.descend? keys with
  | none => rfl
  | some found => exact commutes _ _ (Node.Every.descend? respects tokens found reached)

theorem parts_node (commutes : Commutes translation resolve) {node : Node}
    (respects : node.Every translation.Respects) (path : TokenPath)
    {rows : List (String × List String)} (separate : Separate rows) :
    parts resolve path (translation.node node) rows =
      translation.entries <$> parts resolve path node rows := by
  induction rows with
  | nil => rfl
  | cons row rows ih =>
      obtain ⟨-, tokens⟩ := List.forall_mem_cons.mp (separate.tokens row List.mem_cons_self)
      rw [parts, parts, resolveAt_node commutes respects path tokens, ih separate.tail]
      ext1 <;> simp [Translation.entries_append, Translation.entries_keyed]

theorem iconColors_node (commutes : Commutes translation resolve) (path : TokenPath)
    {colors : List (String × List String)} (separate : Separate colors) {node : Option Node}
    (respects : ∀ found ∈ node, found.Every translation.Respects) :
    iconColors resolve path colors (node.map translation.node) =
      translation.entries <$> iconColors resolve path colors node := by
  cases node with
  | none => rfl
  | some node =>
      cases container : node.isContainer with
      | true =>
          obtain ⟨children, rfl⟩ := Node.exists_children container
          rw [Option.map_some, Translation.node_container, iconColors, iconColors,
            ← Translation.node_container]
          exact parts_node commutes (respects _ rfl) path separate
      | false =>
          have none : ∀ terminal : Node, terminal.isContainer = false →
              iconColors resolve path colors (some terminal) = pure [] := by
            intro terminal isTerminal
            cases terminal with
            | container children => exact absurd isTerminal.symm Bool.false_ne_true
            | _ => rfl
          rw [none node container, Option.map_some,
            none _ (by rw [Translation.isContainer_node, container])]
          rfl

theorem padding_node (commutes : Commutes translation resolve) (path : TokenPath)
    {node : Option Node} (respects : ∀ found ∈ node, found.Every translation.Respects) :
    padding resolve path (node.map translation.node) =
      translation.entries <$> padding resolve path node := by
  rw [padding_eq_iconColors, padding_eq_iconColors,
    iconColors_node commutes path separate_paddingParts respects]

theorem formFieldChild_node (commutes : Commutes translation resolve) {node : Node}
    (respects : node.Every translation.Respects) (path : TokenPath) (key : String) :
    formFieldChild resolve path key (translation.node node) =
      translation.entries <$> formFieldChild resolve path key node := by
  have token : isMetadata "padding" = false := by decide
  rw [formFieldChild, formFieldChild, Translation.isContainer_node]
  split
  · have found : ∀ found ∈ some node, found.Every translation.Respects := by simpa using respects
    exact padding_node commutes _ found
  · split
    · rw [parts_node commutes respects _ separate_fontParts, translation.child?_node token,
        padding_node commutes _ (Node.Every.child? respects token)]
      ext1 <;> simp [Translation.entries_object, Translation.entries_append]
    · split
      · exact expandedChild_node respects path key
      · exact plainChild_node commutes respects path key

theorem iconBearer_node (commutes : Commutes translation resolve) {node : Node}
    (respects : node.Every translation.Respects) (container : node.isContainer = true)
    (path : TokenPath) (apart : List String) {colors : List (String × List String)}
    (separate : Separate colors) :
    iconBearer resolve path (translation.node node) apart colors =
      translation.result <$> iconBearer resolve path node apart colors := by
  have token : isMetadata "icon" = false := by decide
  rw [iconBearer, iconBearer, translation.without_node apart container,
    commutes _ _ (Node.Every.without respects apart), translation.child?_node token,
    iconColors_node commutes _ separate (Node.Every.child? respects token)]
  ext1 <;> simp [Translation.result_withIcon]

theorem listChild_node (commutes : Commutes translation resolve) {node : Node}
    (respects : node.Every translation.Respects) (path : TokenPath) (key : String) :
    listChild resolve path key (translation.node node) =
      translation.entries <$> listChild resolve path key node := by
  rw [listChild, listChild, Translation.isContainer_node]
  split
  · rename_i option
    rw [Bool.and_eq_true] at option
    rw [iconBearer_node commutes respects option.1 _ _ separate_optionColors,
      resolveAt_node commutes respects _ (by decide : ∀ key ∈ ["group"], isMetadata key = false)]
    ext1 <;> simp [Translation.entries_append, Translation.entries_keyed]
  · exact plainChild_node commutes respects path key

theorem navigationChild_node (commutes : Commutes translation resolve) {node : Node}
    (respects : node.Every translation.Respects) (path : TokenPath) (key : String) :
    navigationChild resolve path key (translation.node node) =
      translation.entries <$> navigationChild resolve path key node := by
  rw [navigationChild, navigationChild, Translation.isContainer_node]
  split
  · exact parts_node commutes respects _ separate_submenuParts
  · split
    · rename_i item
      rw [Bool.and_eq_true] at item
      rw [iconBearer_node commutes respects item.1 _ _ separate_itemColors]
      ext1 <;> simp [Translation.entries_keyed]
    · exact plainChild_node commutes respects path key

/-- What a reshaped container gathers is translated if what its children contribute is. -/
private theorem gather_children_node {contribution : String → Node → Logged (Fields Json)}
    (translated : ∀ key child, Node.Every translation.Respects child →
      contribution key (translation.node child) = translation.entries <$> contribution key child)
    {node : Node} (respects : node.Every translation.Respects) :
    gather contribution (translation.node node).children =
      translation.entries <$> gather contribution node.children := by
  rw [Translation.children_node]
  apply gather_tokens
  intro child member token
  have every := (Node.every_container_iff node.children).mp respects.children
  exact translated child.1 child.2 (every child member token)

theorem formField_node (commutes : Commutes translation resolve) {node : Node}
    (respects : node.Every translation.Respects) (path : TokenPath) :
    formField resolve path (translation.node node) =
      translation.entries <$> formField resolve path node :=
  gather_children_node (fun key _ respects => formFieldChild_node commutes respects path key)
    respects

theorem list_node (commutes : Commutes translation resolve) {node : Node}
    (respects : node.Every translation.Respects) (path : TokenPath) :
    list resolve path (translation.node node) = translation.entries <$> list resolve path node :=
  gather_children_node (fun key _ respects => listChild_node commutes respects path key) respects

theorem navigation_node (commutes : Commutes translation resolve) {node : Node}
    (respects : node.Every translation.Respects) (path : TokenPath) :
    navigation resolve path (translation.node node) =
      translation.entries <$> navigation resolve path node :=
  gather_children_node (fun key _ respects => navigationChild_node commutes respects path key)
    respects

/-! ## Sections -/

theorem contribution_node (commutes : Commutes translation resolve) (rule : Dispatch) {node : Node}
    (respects : node.Every translation.Respects) (path : TokenPath) (key : String) :
    rule.contribution resolve path key (translation.node node) =
      translation.entries <$> rule.contribution resolve path key node := by
  cases rule with
  | form =>
      have token : isMetadata "field" = false := by decide
      have field : ((translation.node node).child? "field").getD (.container []) =
          translation.node ((node.child? "field").getD (.container [])) := by
        rw [translation.child?_node token]
        cases node.child? "field" with
        | none => rw [Option.map_none, Option.getD_none, Translation.node_container,
            Translation.tokens_nil]
        | some child => rfl
      have fieldRespects : ((node.child? "field").getD (.container [])).Every
          translation.Respects := by
        cases found : node.child? "field" with
        | none => exact (Node.every_container_iff []).mpr nofun
        | some child => exact Node.Every.child? respects token child found
      simp only [Dispatch.contribution, Translation.ignoredKeys_node, field,
        formField_node commutes fieldRespects]
      split <;> (ext1 <;> simp [Translation.entries_object])
  | list =>
      rw [Dispatch.contribution, Dispatch.contribution, list_node commutes respects]
      ext1 <;> simp [Translation.entries_object]
  | navigation =>
      rw [Dispatch.contribution, Dispatch.contribution, navigation_node commutes respects]
      ext1 <;> simp [Translation.entries_object]
  | transformable => exact expandedChild_node respects path key
  | generic => exact plainChild_node commutes respects path key

theorem node_commutes : Commutes translation node := by
  intro path root respects
  induction root using Node.induction generalizing path with
  | terminal root terminal =>
      have untouched : (translation.node root).isContainer = false := by
        rw [Translation.isContainer_node, terminal]
      rw [node_terminal path untouched, node_terminal path terminal,
        translation.node_terminal terminal, (Node.every_terminal_iff terminal).mp respects path]
  | container children ih =>
      rw [Translation.node_container, node_container, node_container, gather_tokens]
      · ext1 <;> simp [Translation.result_object]
      · intro child member token
        have respects := (Node.every_container_iff children).mp respects child member token
        rw [nodeChild, nodeChild, Translation.first_node]
        split
        · rw [plainChild, plainChild, ih child member _ respects]
          ext1 <;> simp [Translation.entries_keyed]
        · exact contribution_node tree_commutes _ respects path child.1

end Resolve

end DesignTokens
