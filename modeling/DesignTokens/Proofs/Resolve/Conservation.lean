import DesignTokens.Proofs.Resolve.Weight
import Mathlib.Data.Multiset.OrderedMonoid

/-!
# Conservation of scalars

Every scalar of a result comes from a terminal node of its own: resolution invents no scalar and
puts none in two places.  Scalars are counted as a multiset, in a result through its objects and
lists, and in a tree over the terminal nodes that are not below metadata.
-/

namespace DesignTokens

namespace Json

mutual

/-- The scalars in a value, each as often as it occurs. -/
def scalars : Json → Multiset Scalar
  | .null => 0
  | .scalar value => {value}
  | .list items => itemsScalars items
  | .object entries => entriesScalars entries

/-- The scalars in the items of a list. -/
def itemsScalars : List Json → Multiset Scalar
  | [] => 0
  | item :: rest => scalars item + itemsScalars rest

/-- The scalars in the values of an object. -/
def entriesScalars : List (String × Json) → Multiset Scalar
  | [] => 0
  | (_, value) :: rest => scalars value + entriesScalars rest

end

theorem scalars_object (entries : Fields Json) :
    (Json.object entries).scalars = Fields.total scalars entries := by
  rw [scalars]
  induction entries with
  | nil => rfl
  | cons entry rest ih => rw [entriesScalars, Fields.total_cons, ih]

end Json

namespace Node

mutual

/-- The scalars that a tree gives to a result, each as often as it occurs: those in the values of
leaves, the style texts of box shadows, and the bare values that are not empty. -/
def atoms : Node → Multiset Scalar
  | .leaf type value =>
      if type = TokenType.boxShadow.text then
        match Shadow.render? value with
        | some css => {.str css}
        | none => 0
      else value.scalars
  | .container children => childrenAtoms children
  | .bare value => if value = .str "" then 0 else {value}
  | .malformed _ _ => 0

/-- The scalars that the children of a container give to a result. -/
def childrenAtoms : List (String × Node) → Multiset Scalar
  | [] => 0
  | (key, child) :: rest => (if isMetadata key then 0 else atoms child) + childrenAtoms rest

end

/-- A terminal node gives just the scalars of its value. -/
theorem scalars_resolveTerminal (path : TokenPath) {node : Node}
    (terminal : node.isContainer = false) :
    (Json.ofOption (node.resolveTerminal path).value).scalars = node.atoms := by
  cases node with
  | container children => exact absurd terminal.symm Bool.false_ne_true
  | leaf type value =>
      rw [resolveTerminal, atoms]
      split
      · cases rendered : Shadow.render? value <;> rfl
      · cases value <;> rfl
  | bare value =>
      rw [resolveTerminal, atoms]
      split <;> rfl
  | malformed raw malformation => rw [atoms]; rfl

end Node

namespace Weighing

/-- Values and nodes weigh their scalars, and keys weigh nothing. -/
def scalars : Weighing (Multiset Scalar) where
  key := 0
  value := Json.scalars
  terminal := Node.atoms
  value_object entries := by simp [Json.scalars_object]
  value_le_terminal path node terminal result resolved := by
    rw [← Node.scalars_resolveTerminal path terminal, Option.mem_def.mp resolved, Json.ofOption]

theorem result_scalars (result : Option Json) :
    scalars.result result = (Json.ofOption result).scalars := by
  cases result with
  | none => rfl
  | some value => rfl

theorem node_scalars (node : Node) : scalars.node node = node.atoms := by
  induction node using Node.induction with
  | terminal node terminal => exact scalars.node_terminal terminal
  | container children ih =>
      rw [node_container, Node.atoms]
      induction children with
      | nil => rfl
      | cons child rest parts =>
          obtain ⟨here, others⟩ := List.forall_mem_cons.mp ih
          rw [Weighing.children, Node.childrenAtoms, here, parts others]
          simp [scalars]

end Weighing

namespace Resolve

/-- Resolution invents no scalar and uses none twice, whatever the document and the path. -/
theorem scalars_value_le (path : TokenPath) (document : Json) :
    (Json.ofOption (value path document).value).scalars ≤ (Node.ofJson document).atoms := by
  by_cases null : document = .null
  · rw [null]
    exact zero_le
  · have bounded := Weighing.scalars.result_node_le path (.ofJson document)
    rw [Weighing.result_scalars, Weighing.node_scalars] at bounded
    rwa [value_of_ne_null path null]

end Resolve
end DesignTokens
