import DesignTokens.Json.Basic

/-!
# Expansions

Expanding a container gives two sets of entries: those that move next to the container's key, and
those that stay under it.
-/

namespace DesignTokens

/-- The entries that an expanded container contributes. -/
structure Expansion where
  /-- Entries next to the key. -/
  flattened : Fields Json
  /-- Entries under the key. -/
  nested : Fields Json

namespace Expansion

/-- No entries. -/
def empty : Expansion := ⟨[], []⟩

instance : Inhabited Expansion := ⟨empty⟩

/-- Assign the entries of the second expansion to the first. -/
def merge (first second : Expansion) : Expansion where
  flattened := Fields.merge first.flattened second.flattened
  nested := Fields.merge first.nested second.nested

/-- The entries for the surrounding container.  The key itself appears only if something stays under
it. -/
def entries (expansion : Expansion) (key : String) : Fields Json :=
  Fields.merge (if expansion.nested.isEmpty then [] else [(key, .object expansion.nested)])
    expansion.flattened

@[simp]
theorem empty_merge (expansion : Expansion) : merge empty expansion = expansion := by
  simp [merge, empty]

@[simp]
theorem merge_empty (expansion : Expansion) : merge expansion empty = expansion := by
  simp [merge, empty]

theorem merge_assoc (first second third : Expansion) :
    merge (merge first second) third = merge first (merge second third) := by
  simp [merge, Fields.merge_assoc]

end Expansion
end DesignTokens
