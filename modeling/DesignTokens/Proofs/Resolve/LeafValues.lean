import DesignTokens.Proofs.Resolve.Metadata

/-!
# Values of leaves

What a walk makes of a tree does not depend on the values of its leaves.  If a function is applied
to the value of every leaf of a document, then every walk reports the same events, and its result
has the same keys in the same order, with the function applied to its scalars.  So zero, false, the
empty text and references are values like any other.
-/

namespace DesignTokens

namespace Json

mutual

/-- The document with a function applied to the scalars in the value of each leaf. -/
def mapLeaves (f : Scalar → Scalar) : Json → Json
  | .null => .null
  | .scalar value => .scalar value
  | .list items => .list items
  | .object entries =>
      match Node.shape entries with
      | .leaf _ _ => .object (entries.map fun entry =>
          (entry.1, if entry.1 = valueKey then mapScalars f entry.2 else entry.2))
      | .malformed _ => .object entries
      | .container => .object (mapLeavesIn f entries)

/-- The entries of a container with a function applied to the values of the leaves below. -/
def mapLeavesIn (f : Scalar → Scalar) : List (String × Json) → List (String × Json)
  | [] => []
  | (key, value) :: rest => (key, mapLeaves f value) :: mapLeavesIn f rest

end

theorem mapLeavesIn_eq (f : Scalar → Scalar) (entries : Fields Json) :
    mapLeavesIn f entries = Fields.mapValues (mapLeaves f) entries := by
  induction entries with
  | nil => rfl
  | cons entry rest ih => rw [mapLeavesIn, ih, Fields.mapValues_cons]

theorem mapLeaves_ne_null (f : Scalar → Scalar) {raw : Json} (present : raw ≠ .null) :
    raw.mapLeaves f ≠ .null := by
  cases raw with
  | null => exact absurd rfl present
  | object entries =>
      rw [mapLeaves]
      split <;> exact nofun
  | _ => exact nofun

theorem toOption_mapScalars (f : Scalar → Scalar) (value : Json) :
    (value.mapScalars f).toOption = value.toOption.map (mapScalars f) := by
  cases value <;> rfl

end Json

namespace Node

/-- A leaf with a function applied to the scalars in its value; any other node as it is. -/
def mapLeaf (f : Scalar → Scalar) : Node → Node
  | leaf type value => leaf type (value.mapScalars f)
  | node => node

/-- Whether the value of a terminal node, if it has any, is one that a leaf gives as it stands: the
node is malformed, or a leaf that is no box shadow. -/
def passesThrough : Node → Bool
  | leaf type value => !(leaf type value).isShadow
  | malformed _ _ => true
  | _ => false

/-- The shape of a leaf with a function applied to its value. -/
theorem shape_mapLeaf (f : Scalar → Scalar) {entries : Fields Json} {type value : Json}
    (leaf : shape entries = .leaf type value) :
    shape (entries.map fun entry =>
        (entry.1, if entry.1 = valueKey then entry.2.mapScalars f else entry.2)) =
      .leaf type (value.mapScalars f) := by
  have mapped := Fields.get?_map
    (fun key value => if key = valueKey then Json.mapScalars f value else value) entries
  have differ : typeKey ≠ valueKey := by decide
  obtain ⟨typed, valued⟩ := (shape_eq_leaf_iff entries type value).mp leaf
  rw [shape_eq_leaf_iff, mapped, mapped, typed, valued, Option.map_some, Option.map_some,
    if_neg differ, if_pos rfl]
  exact ⟨rfl, rfl⟩

theorem shape_mapLeavesIn (f : Scalar → Scalar) {entries : Fields Json}
    (container : shape entries = .container) :
    shape (Json.mapLeavesIn f entries) = .container := by
  rw [shape_eq_container_iff] at container ⊢
  rwa [Json.mapLeavesIn_eq, Fields.keys_mapValues]

end Node

namespace Translation

/-- The translation that applies a function to the values of leaves. -/
def revaluing (f : Scalar → Scalar) : Translation where
  terminal := Node.mapLeaf f
  scalar := f
  isContainer_terminal node terminal := by cases node <;> exact terminal

theorem respects_revaluing (f : Scalar → Scalar) {node : Node}
    (passes : node.passesThrough = true) : (revaluing f).Respects node := by
  intro path
  cases node with
  | container children => exact absurd passes Bool.false_ne_true
  | bare value => exact absurd passes Bool.false_ne_true
  | malformed raw malformation => rfl
  | leaf type value =>
      have unshadowed : ¬type = TokenType.boxShadow.text := by
        simpa [Node.passesThrough, Node.isShadow] using passes
      change (Node.leaf type (value.mapScalars f)).resolveTerminal path = _
      rw [Node.resolveTerminal, Node.resolveTerminal, if_neg unshadowed, if_neg unshadowed,
        Json.toOption_mapScalars]
      rfl

theorem stripping_childrenOfJson (f : Scalar → Scalar) {entries : List (String × Json)}
    (revalued : ∀ entry ∈ entries, stripping.node (Node.ofJson (entry.2.mapLeaves f)) =
      (revaluing f).node (Node.ofJson entry.2)) :
    stripping.tokens (Node.childrenOfJson (Json.mapLeavesIn f entries)) =
      (revaluing f).tokens (Node.childrenOfJson entries) := by
  induction entries with
  | nil => rfl
  | cons entry rest ih =>
      obtain ⟨key, value⟩ := entry
      obtain ⟨here, others⟩ := List.forall_mem_cons.mp revalued
      rw [Json.mapLeavesIn, Node.childrenOfJson, Node.childrenOfJson]
      cases token : isMetadata key with
      | true => rw [tokens_metadata _ token, tokens_metadata _ token, ih others]
      | false => rw [tokens_token _ token, tokens_token _ token, here, ih others]

/-- The tree of a document with other values is, metadata apart, the tree with other values. -/
theorem stripping_ofJson_mapLeaves (f : Scalar → Scalar) (raw : Json) :
    stripping.node (Node.ofJson (raw.mapLeaves f)) = (revaluing f).node (Node.ofJson raw) := by
  induction raw using Json.induction with
  | null => rfl
  | scalar value => rfl
  | list items => rfl
  | object entries ih =>
      cases shaped : Node.shape entries with
      | leaf type value =>
          simp only [Json.mapLeaves, shaped, Node.ofJson, Node.shape_mapLeaf f shaped]
          rfl
      | malformed malformation =>
          simp only [Json.mapLeaves, shaped, Node.ofJson]
          rfl
      | container =>
          simp only [Json.mapLeaves, shaped]
          rw [Node.ofJson_container (Node.shape_mapLeavesIn f shaped),
            Node.ofJson_container shaped, node_container, node_container,
            stripping_childrenOfJson f ih]

end Translation

namespace Resolve

/-- With a function applied to the values of its leaves, a document has the same result as before
with the function applied to its scalars, at every path, and the same events are reported.  So it is
for each of the reshaped containers, and for expansions. -/
theorem walks_mapLeaves (f : Scalar → Scalar) {raw : Json}
    (passing : (Node.ofJson raw).Every fun terminal => terminal.passesThrough = true)
    (path : TokenPath) :
    value path (raw.mapLeaves f) = Option.map (Json.mapScalars f) <$> value path raw ∧
    formField node path (.ofJson (raw.mapLeaves f)) =
      Fields.mapValues (Json.mapScalars f) <$> formField node path (.ofJson raw) ∧
    list node path (.ofJson (raw.mapLeaves f)) =
      Fields.mapValues (Json.mapScalars f) <$> list node path (.ofJson raw) ∧
    navigation node path (.ofJson (raw.mapLeaves f)) =
      Fields.mapValues (Json.mapScalars f) <$> navigation node path (.ofJson raw) ∧
    ∀ owner, expand owner path (Node.ofJson (raw.mapLeaves f)).children =
      Expansion.mapValues (Json.mapScalars f) <$> expand owner path (Node.ofJson raw).children := by
  have respects : (Node.ofJson raw).Every (Translation.revaluing f).Respects :=
    passing.mono fun _ passes => Translation.respects_revaluing f passes
  have revalued := Translation.stripping_ofJson_mapLeaves f raw
  refine ⟨?_, ?_, ?_, ?_, ?_⟩
  · by_cases null : raw = .null
    · rw [null]
      rfl
    · rw [value_of_ne_null path (Json.mapLeaves_ne_null f null), value_of_ne_null path null,
        ← node_stripping, revalued, node_commutes path _ respects]
      rfl
  · rw [← formField_stripping, revalued, formField_node node_commutes respects]
    rfl
  · rw [← list_stripping, revalued, list_node node_commutes respects]
    rfl
  · rw [← navigation_stripping, revalued, navigation_node node_commutes respects]
    rfl
  · intro owner
    rw [← expand_stripping, revalued, expand_children_node respects]
    rfl

/-- A section whose list has a group, an icon and a hovered color, with zero, false, the empty text
and a reference for values, and a null. -/
def falsyList : Json :=
  .object [("list", .object [("$description", .str "Menus"), ("option", .object [
    ("group", .leaf "fontWeights" (.int 0)),
    ("icon", .object [("color", .leaf "color" (.str "")), ("focus", .object [
      ("color", .leaf "color" (.str "\x7bprimary.500\x7d"))])]),
    ("hover", .object [("color", .leaf "boolean" (.bool false))]), ("gap", .null)])])]

/-- With a color for every value, the list has the same keys and reports the same null. -/
theorem falsyList_mapLeaves :
    ((Node.ofJson falsyList).Every fun terminal => terminal.passesThrough = true) ∧
    value ["semantic"] (falsyList.mapLeaves fun _ => .str "red") =
      Option.map (Json.mapScalars fun _ => .str "red") <$> value ["semantic"] falsyList ∧
    (value ["semantic"] falsyList).value =
      some (.object [("list", .object [
        ("option", .object [("hoverColor", .bool false), ("icon", .object [("color", .str ""),
          ("focusColor", .str "\x7bprimary.500\x7d")])]),
        ("optionGroup", .int 0)])]) := by
  have icon : (Node.ofJson (.object [("color", .leaf "color" (.str "")), ("focus", .object [
      ("color", .leaf "color" (.str "\x7bprimary.500\x7d"))])])).Every
        fun terminal => terminal.passesThrough = true :=
    ⟨fun _ => rfl, fun _ => ⟨fun _ => rfl, trivial⟩, trivial⟩
  have passing : (Node.ofJson falsyList).Every fun terminal => terminal.passesThrough = true :=
    ⟨fun _ => ⟨fun token => absurd token (by decide), fun _ =>
      ⟨fun _ => rfl, fun _ => icon, fun _ => ⟨fun _ => rfl, trivial⟩, fun _ => rfl, trivial⟩,
      trivial⟩, trivial⟩
  refine ⟨passing, (walks_mapLeaves (fun _ => .str "red") passing ["semantic"]).1, ?_⟩
  rfl

end Resolve

end DesignTokens
