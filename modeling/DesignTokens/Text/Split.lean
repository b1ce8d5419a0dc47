/-!
# Splitting at a separator

A list is split into the pieces between its separators; a list without separators is a single piece.
The pieces joined by the separator give the list back, and no piece contains the separator.
-/

namespace DesignTokens
namespace Text

variable {α : Type} [DecidableEq α]

/-- The pieces of a list between its separators. -/
def split (separator : α) : List α → List (List α)
  | [] => [[]]
  | a :: rest =>
      if a = separator then [] :: split separator rest
      else (split separator rest).modifyHead (a :: ·)

@[simp]
theorem split_nil (separator : α) : split separator [] = [[]] := rfl

@[simp]
theorem split_separator_cons (separator : α) (rest : List α) :
    split separator (separator :: rest) = [] :: split separator rest := by
  simp [split]

theorem split_cons_of_ne {separator a : α} (different : a ≠ separator) (rest : List α) :
    split separator (a :: rest) = (split separator rest).modifyHead (a :: ·) := by
  simp [split, different]

theorem split_ne_nil (separator : α) (items : List α) : split separator items ≠ [] := by
  induction items with
  | nil => simp
  | cons a rest ih =>
      by_cases same : a = separator
      · simp [split, same]
      · simpa [split, same] using ih

/-- A list is the join of its pieces. -/
theorem intercalate_split (separator : α) (items : List α) :
    [separator].intercalate (split separator items) = items := by
  induction items with
  | nil => rfl
  | cons a rest ih =>
      obtain ⟨piece, more, pieces⟩ :=
        List.exists_cons_of_ne_nil (split_ne_nil separator rest)
      rw [pieces] at ih
      by_cases same : a = separator
      · subst same
        simp_all [List.intercalate]
      · rw [split_cons_of_ne same, pieces]
        cases more <;> simp_all [List.intercalate]

/-- No piece contains the separator. -/
theorem separator_not_mem (separator : α) (items : List α) :
    ∀ piece ∈ split separator items, separator ∉ piece := by
  induction items with
  | nil => simp
  | cons a rest ih =>
      by_cases same : a = separator
      · subst same
        simpa using ih
      · obtain ⟨piece, more, pieces⟩ :=
          List.exists_cons_of_ne_nil (split_ne_nil separator rest)
        rw [pieces] at ih
        rw [split_cons_of_ne same, pieces]
        simp_all [Ne.symm same]

end Text
end DesignTokens
