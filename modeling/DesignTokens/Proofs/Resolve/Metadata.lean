import DesignTokens.Proofs.Resolve.Translation

/-!
# Metadata

A document can be stripped of its metadata: of the members of containers that are no tokens, and of
the members of leaves besides their type and their value.  Every walk over the stripped document
gives the same result, and reports the same events.
-/

namespace DesignTokens

namespace Json

mutual

/-- The document without metadata: where a token may stand, an object with neither a type nor a
value keeps its tokens, and one with both keeps only these. -/
def strip : Json → Json
  | .null => .null
  | .scalar value => .scalar value
  | .list items => .list items
  | .object entries =>
      match Node.shape entries with
      | .leaf _ _ => .object (entries.filter fun entry => [typeKey, valueKey].contains entry.1)
      | .malformed _ => .object entries
      | .container => .object (stripTokens entries)

/-- The entries that are no metadata, without the metadata below them. -/
def stripTokens : List (String × Json) → List (String × Json)
  | [] => []
  | (key, value) :: rest =>
      if isMetadata key then stripTokens rest else (key, strip value) :: stripTokens rest

end

theorem stripTokens_metadata {key : String} (metadata : isMetadata key = true) (value : Json)
    (rest : List (String × Json)) : stripTokens ((key, value) :: rest) = stripTokens rest := by
  rw [stripTokens, if_pos metadata]

theorem stripTokens_token {key : String} (token : isMetadata key = false) (value : Json)
    (rest : List (String × Json)) :
    stripTokens ((key, value) :: rest) = (key, value.strip) :: stripTokens rest := by
  rw [stripTokens, if_neg (by simp [token])]

theorem keys_stripTokens (entries : Fields Json) :
    Fields.keys (stripTokens entries) =
      (Fields.keys entries).filter fun key => !isMetadata key := by
  induction entries with
  | nil => rfl
  | cons entry rest ih =>
      obtain ⟨key, value⟩ := entry
      cases token : isMetadata key with
      | true =>
          rw [stripTokens_metadata token, ih, Fields.keys_cons,
            List.filter_cons_of_neg (by simp [token])]
      | false =>
          rw [stripTokens_token token, Fields.keys_cons, ih, Fields.keys_cons,
            List.filter_cons_of_pos (by simp [token])]

theorem strip_ne_null {raw : Json} (present : raw ≠ .null) : raw.strip ≠ .null := by
  cases raw with
  | null => exact absurd rfl present
  | object entries =>
      rw [strip]
      split <;> exact nofun
  | _ => exact nofun

end Json

namespace Translation

/-- The translation that leaves out metadata and changes nothing else. -/
def stripping : Translation where
  terminal := id
  scalar := id
  isContainer_terminal _ terminal := terminal

theorem entries_stripping : stripping.entries = id :=
  funext fun _ => Fields.mapValues_eq_self fun entry _ => entry.2.mapScalars_id

theorem result_stripping : stripping.result = id := by
  have same : Json.mapScalars id = id := funext Json.mapScalars_id
  exact (congrArg Option.map same).trans Option.map_id

theorem expansion_stripping : stripping.expansion = id := by
  funext expansion
  rw [expansion_mk, entries_stripping]
  rfl

theorem every_stripping (node : Node) : node.Every stripping.Respects := by
  refine Node.Every.of_forall (fun terminal path => ?_) node
  rw [result_stripping, id_map]
  rfl

end Translation

namespace Node

theorem shape_strip_of_leaf {entries : Fields Json} {type value : Json}
    (leaf : shape entries = .leaf type value) :
    shape (entries.filter fun entry => [typeKey, valueKey].contains entry.1) =
      .leaf type value := by
  rw [← leaf, shape, shape, Fields.get?_filter entries _ (by decide),
    Fields.get?_filter entries _ (by decide)]

theorem shape_strip_of_container {entries : Fields Json} (container : shape entries = .container) :
    shape (Json.stripTokens entries) = .container := by
  obtain ⟨typeless, valueless⟩ := (shape_eq_container_iff entries).mp container
  rw [shape_eq_container_iff, Json.keys_stripTokens]
  exact ⟨fun named => typeless (List.mem_of_mem_filter named),
    fun named => valueless (List.mem_of_mem_filter named)⟩

theorem childrenOfJson_stripTokens {entries : List (String × Json)}
    (stripped : ∀ entry ∈ entries,
      ofJson entry.2.strip = Translation.stripping.node (ofJson entry.2)) :
    childrenOfJson (Json.stripTokens entries) =
      Translation.stripping.tokens (childrenOfJson entries) := by
  induction entries with
  | nil => rfl
  | cons entry rest ih =>
      obtain ⟨key, value⟩ := entry
      obtain ⟨here, others⟩ := List.forall_mem_cons.mp stripped
      cases token : isMetadata key with
      | true =>
          rw [Json.stripTokens_metadata token, childrenOfJson,
            Translation.stripping.tokens_metadata token, ih others]
      | false =>
          rw [Json.stripTokens_token token, childrenOfJson, childrenOfJson,
            Translation.stripping.tokens_token token, here, ih others]

/-- The tree of the stripped document is the tree without metadata. -/
theorem ofJson_strip (raw : Json) : ofJson raw.strip = Translation.stripping.node (ofJson raw) := by
  induction raw using Json.induction with
  | null => rfl
  | scalar value => rfl
  | list items => rfl
  | object entries ih =>
      cases shaped : shape entries with
      | leaf type value =>
          simp only [Json.strip, shaped, ofJson, shape_strip_of_leaf shaped]
          rfl
      | malformed malformation =>
          simp only [Json.strip, shaped, ofJson]
          rfl
      | container =>
          simp only [Json.strip, shaped]
          rw [ofJson_container (shape_strip_of_container shaped), ofJson_container shaped,
            Translation.node_container, childrenOfJson_stripTokens ih]

end Node

namespace Resolve

/-! ## Walks over stripped documents -/

theorem node_stripping (path : TokenPath) (root : Node) :
    node path (Translation.stripping.node root) = node path root := by
  rw [node_commutes path root (Translation.every_stripping root), Translation.result_stripping,
    id_map]

theorem formField_stripping (path : TokenPath) (root : Node) :
    formField node path (Translation.stripping.node root) = formField node path root := by
  rw [formField_node node_commutes (Translation.every_stripping root),
    Translation.entries_stripping, id_map]

theorem list_stripping (path : TokenPath) (root : Node) :
    list node path (Translation.stripping.node root) = list node path root := by
  rw [list_node node_commutes (Translation.every_stripping root), Translation.entries_stripping,
    id_map]

theorem navigation_stripping (path : TokenPath) (root : Node) :
    navigation node path (Translation.stripping.node root) = navigation node path root := by
  rw [navigation_node node_commutes (Translation.every_stripping root),
    Translation.entries_stripping, id_map]

theorem expand_stripping (owner : String) (path : TokenPath) (root : Node) :
    expand owner path (Translation.stripping.node root).children =
      expand owner path root.children := by
  rw [expand_children_node (Translation.every_stripping root), Translation.expansion_stripping,
    id_map]

theorem value_strip (path : TokenPath) (raw : Json) : value path raw.strip = value path raw := by
  by_cases null : raw = .null
  · rw [null]
    rfl
  · rw [value_of_ne_null path (Json.strip_ne_null null), value_of_ne_null path null,
      Node.ofJson_strip, node_stripping]

/-- Without its metadata, a document has the same result as with it, at every path, and the same
events are reported.  So it is for each of the reshaped containers, and for expansions. -/
theorem walks_strip (raw : Json) (path : TokenPath) :
    value path raw.strip = value path raw ∧
    formField node path (.ofJson raw.strip) = formField node path (.ofJson raw) ∧
    list node path (.ofJson raw.strip) = list node path (.ofJson raw) ∧
    navigation node path (.ofJson raw.strip) = navigation node path (.ofJson raw) ∧
    ∀ owner, expand owner path (Node.ofJson raw.strip).children =
      expand owner path (Node.ofJson raw).children := by
  rw [Node.ofJson_strip]
  exact ⟨value_strip path raw, formField_stripping path _, list_stripping path _,
    navigation_stripping path _, fun owner => expand_stripping owner path _⟩

end Resolve
end DesignTokens
