import DesignTokens.Rename
import DesignTokens.Token.Node
import Mathlib.Data.List.Basic

/-!
# The rename table

The flat names of the table are no metadata and no rename parents, so that a renamed token never
meets the container of a parent.  A rule that is found for a path belongs to the table, and its
pattern ends the path.
-/

namespace DesignTokens
namespace Rename

theorem mem_table_of_find? {path : TokenPath} {rule : Rename} (found : find? path = some rule) :
    rule ∈ table :=
  List.mem_of_find?_eq_some found

theorem applies_iff (rule : Rename) (path : TokenPath) :
    rule.applies path = true ↔ rule.pattern <:+ path :=
  List.isSuffixOf_iff_suffix

theorem pattern_suffix_of_find? {path : TokenPath} {rule : Rename}
    (found : find? path = some rule) : rule.pattern <:+ path :=
  (applies_iff rule path).mp (List.find?_some (p := fun rule : Rename => rule.applies path) found)

/-- The flat names of the table. -/
def names : List String := table.map name

theorem name_mem_names {rule : Rename} (member : rule ∈ table) : rule.name ∈ names :=
  List.mem_map_of_mem member

theorem isParent_name {rule : Rename} (member : rule ∈ table) : isParent rule.name = false := by
  have names : ∀ rule ∈ table, isParent rule.name = false := by decide
  exact names rule member

theorem isMetadata_name {rule : Rename} (member : rule ∈ table) :
    isMetadata rule.name = false := by
  have names : ∀ rule ∈ table, isMetadata rule.name = false := by decide
  exact names rule member

/-- A rule of two keys is found below the first of them. -/
theorem head?_pattern_of_find? {parent : TokenPath} {key : String} {rule : Rename}
    (found : find? (parent ++ [key]) = some rule) (short : rule.depth < 3) :
    rule.pattern.head? = parent.getLast? := by
  have proper : ∀ rule ∈ table, 2 ≤ rule.depth := by decide
  have two : rule.pattern.length = 2 :=
    Nat.le_antisymm (Nat.le_of_lt_succ short) (proper rule (mem_table_of_find? found))
  obtain ⟨first, last, pattern⟩ := List.length_eq_two.mp two
  obtain ⟨before, split⟩ := pattern_suffix_of_find? found
  rw [pattern, List.append_cons] at split
  rw [pattern, ← List.append_inj_left' split rfl]
  simp

theorem isMetadata_parent {key : String} (parent : isParent key = true) :
    isMetadata key = false := by
  have names : ∀ key ∈ parents, isMetadata key = false := by decide
  exact names key (List.contains_iff_mem.mp parent)

end Rename
end DesignTokens
