import DesignTokens.Proofs.Resolve.Results

/-!
# Parts of a node

Some values are picked from below a node, each by a row of keys.  Such a part is there if the keys
lead through containers to a node that has a value; so a node that is no container has no parts.
-/

namespace DesignTokens
namespace Resolve

variable {resolve : Resolver} {path : TokenPath}

/-- The value of the node that a row of keys leads to, if the node exists and has a value. -/
def valueAt (resolve : Resolver) (path : TokenPath) (node : Node) (keys : List String) :
    Option Json :=
  (node.descend? keys).bind fun found => (resolve (path ++ keys) found).value

/-- The values below a node that some rows of keys lead to, where there are any, each under a name
of its own. -/
def valuesAt (resolve : Resolver) (path : TokenPath) (node : Node)
    (rows : List (String × List String)) : Fields Json :=
  Fields.present (rows.map fun row => (row.1, valueAt resolve path node row.2))

/-- The rows of keys that lead through the child `key` first. -/
def through (key : String) (rows : List (String × List String)) : List (String × List String) :=
  rows.map fun row => (row.1, key :: row.2)

/-- The parts of a size variant. -/
def sizedParts : List (String × List String) :=
  [("fontSize", ["font", "size"]), ("paddingX", ["padding", "x"]), ("paddingY", ["padding", "y"])]

theorem value_resolveAt_eq_valueAt (resolve : Resolver) (path : TokenPath) (node : Node)
    (keys : List String) :
    (resolveAt resolve path node keys).value = valueAt resolve path node keys := by
  rw [resolveAt, valueAt]
  cases node.descend? keys <;> rfl

theorem value_parts_eq_valuesAt (resolve : Resolver) (path : TokenPath) (node : Node)
    (rows : List (String × List String)) :
    (parts resolve path node rows).value = valuesAt resolve path node rows := by
  induction rows with
  | nil => rfl
  | cons row rows ih =>
      rw [parts, Logged.bind_value, Logged.bind_value, Logged.pure_value,
        value_resolveAt_eq_valueAt, ih]
      cases found : valueAt resolve path node row.2 <;>
        simp [valuesAt, Fields.present, keyed, found]

theorem valuesAt_append (resolve : Resolver) (path : TokenPath) (node : Node)
    (first second : List (String × List String)) :
    valuesAt resolve path node (first ++ second) =
      valuesAt resolve path node first ++ valuesAt resolve path node second := by
  simp [valuesAt, Fields.present]

theorem valuesAt_ne_nil_iff (node : Node) (rows : List (String × List String)) :
    valuesAt resolve path node rows ≠ [] ↔
      ∃ row ∈ rows, (valueAt resolve path node row.2).isSome := by
  simp [valuesAt, Fields.present, Option.isSome_iff_ne_none]

/-! ## Parts below a child -/

theorem valueAt_cons (resolve : Resolver) (path : TokenPath) (node : Node) (key : String)
    (keys : List String) :
    valueAt resolve path node (key :: keys) =
      (node.child? key).bind fun child => valueAt resolve (path ++ [key]) child keys := by
  simp only [valueAt, Node.descend?, Option.bind_assoc, List.append_assoc, List.cons_append,
    List.nil_append]

theorem valuesAt_through (resolve : Resolver) (path : TokenPath) (node : Node) (key : String)
    (rows : List (String × List String)) :
    valuesAt resolve path node (through key rows) =
      match node.child? key with
      | some child => valuesAt resolve (path ++ [key]) child rows
      | none => [] := by
  rw [valuesAt, through, List.map_map]
  simp only [Function.comp_def, valueAt_cons]
  cases node.child? key with
  | none => simp [Fields.present]
  | some child => rfl

/-! ## Nodes that are no containers -/

theorem valuesAt_of_terminal {node : Node} (terminal : node.isContainer = false)
    {rows : List (String × List String)} (proper : ∀ row ∈ rows, row.2 ≠ []) :
    valuesAt resolve path node rows = [] := by
  by_contra present
  obtain ⟨row, listed, resolved⟩ := (valuesAt_ne_nil_iff node rows).mp present
  rw [valueAt, Node.descend?_of_terminal terminal (proper row listed)] at resolved
  exact Bool.false_ne_true resolved

/-- A node that is no container has no colors, and no parts either. -/
theorem value_iconColors (resolve : Resolver) (path : TokenPath) (node : Node)
    {rows : List (String × List String)} (proper : ∀ row ∈ rows, row.2 ≠ []) :
    (iconColors resolve path rows (some node)).value = (parts resolve path node rows).value := by
  cases node with
  | container children => rfl
  | _ => exact ((value_parts_eq_valuesAt _ _ _ _).trans (valuesAt_of_terminal rfl proper)).symm

/-- A node that is no container has no padding, and no parts either. -/
theorem value_padding (resolve : Resolver) (path : TokenPath) (node : Node) :
    (padding resolve path (some node)).value = (parts resolve path node paddingParts).value := by
  rw [padding_eq_iconColors, value_iconColors resolve path node separate_paddingParts.nonempty]

theorem value_iconColors_child? (resolve : Resolver) (path : TokenPath) (node : Node)
    (key : String) {rows : List (String × List String)} (proper : ∀ row ∈ rows, row.2 ≠ []) :
    (iconColors resolve (path ++ [key]) rows (node.child? key)).value =
      valuesAt resolve path node (through key rows) := by
  rw [valuesAt_through]
  cases node.child? key with
  | none => rfl
  | some child =>
      rw [value_iconColors resolve _ child proper, value_parts_eq_valuesAt]

theorem value_sizedParts (resolve : Resolver) (path : TokenPath) (node : Node) :
    (parts resolve path node fontParts).value ++
        (padding resolve (path ++ ["padding"]) (node.child? "padding")).value =
      valuesAt resolve path node sizedParts := by
  rw [padding_eq_iconColors, value_parts_eq_valuesAt,
    value_iconColors_child? resolve path node "padding" separate_paddingParts.nonempty,
    ← valuesAt_append]
  rfl

end Resolve
end DesignTokens
