import DesignTokens.Text.Blank
import Mathlib.Data.List.Basic
import Mathlib.Data.List.TakeWhile

/-!
# Trimmed texts

Trimming takes away characters of a kind at both ends, and as many as there are.  What remains is
the only part of the text that is trimmed already and has nothing but such characters around it.
-/

namespace DesignTokens
namespace Text

/-- No character at either end is of a kind. -/
structure IsTrimmed (drop : Char → Bool) (cs : List Char) : Prop where
  first : ∀ c ∈ cs.head?, drop c = false
  last : ∀ c ∈ cs.getLast?, drop c = false

variable {drop : Char → Bool} {cs core before after : List Char}

/-- A text is trimmed of two kinds together if it is trimmed of each. -/
theorem isTrimmed_or_iff {drop' : Char → Bool} :
    IsTrimmed (fun c => drop c || drop' c) cs ↔ IsTrimmed drop cs ∧ IsTrimmed drop' cs := by
  constructor
  · rintro ⟨first, last⟩
    simp only [Bool.or_eq_false_iff] at first last
    exact ⟨⟨fun c member => (first c member).1, fun c member => (last c member).1⟩,
      fun c member => (first c member).2, fun c member => (last c member).2⟩
  · rintro ⟨⟨first, last⟩, first', last'⟩
    exact ⟨fun c member => Bool.or_eq_false_iff.mpr ⟨first c member, first' c member⟩,
      fun c member => Bool.or_eq_false_iff.mpr ⟨last c member, last' c member⟩⟩

/-- A text between characters of a kind is trimmed of another kind if only the text has characters
of that kind at its ends, and if it has none. -/
theorem IsTrimmed.surround (trimmed : IsTrimmed drop core)
    (kept : ∀ c ∈ before, drop c = false) (kept' : ∀ c ∈ after, drop c = false) :
    IsTrimmed drop (before ++ core ++ after) := by
  constructor
  · intro c member
    rw [List.append_assoc, List.head?_append, List.head?_append, Option.mem_def,
      Option.or_eq_some_iff] at member
    rcases member with first | ⟨-, member⟩
    · exact kept c (List.mem_of_head? first)
    · rcases Option.or_eq_some_iff.mp member with first | ⟨-, first⟩
      · exact trimmed.first c first
      · exact kept' c (List.mem_of_head? first)
  · intro c member
    rw [List.getLast?_append, List.getLast?_append, Option.mem_def, Option.or_eq_some_iff] at member
    rcases member with last | ⟨-, member⟩
    · exact kept' c (List.mem_of_getLast? last)
    · rcases Option.or_eq_some_iff.mp member with last | ⟨-, last⟩
      · exact trimmed.last c last
      · exact kept c (List.mem_of_getLast? last)

/-! ## Trimming -/

theorem dropWhile_of_head? (kept : ∀ c ∈ cs.head?, drop c = false) : cs.dropWhile drop = cs := by
  cases cs with
  | nil => rfl
  | cons c rest => exact List.dropWhile_cons_of_neg (by simp [kept c rfl])

theorem trimEnd_of_getLast? (kept : ∀ c ∈ cs.getLast?, drop c = false) : trimEnd drop cs = cs := by
  rw [trimEnd, dropWhile_of_head? (by rwa [List.head?_reverse]), List.reverse_reverse]

theorem trimEnd_append (dropped : ∀ c ∈ after, drop c = true) :
    trimEnd drop (cs ++ after) = trimEnd drop cs := by
  rw [trimEnd, List.reverse_append, List.dropWhile_append_of_pos, trimEnd]
  exact fun c member => dropped c (List.mem_reverse.mp member)

theorem trim_of_isTrimmed (trimmed : IsTrimmed drop cs) : trim drop cs = cs := by
  rw [trim, dropWhile_of_head? trimmed.first, trimEnd_of_getLast? trimmed.last]

/-- Trimming takes away all that surrounds a trimmed text. -/
theorem trim_surround (trimmed : IsTrimmed drop core) (dropped : ∀ c ∈ before, drop c = true)
    (dropped' : ∀ c ∈ after, drop c = true) : trim drop (before ++ core ++ after) = core := by
  rw [trim, List.append_assoc, List.dropWhile_append_of_pos dropped]
  cases core with
  | nil =>
      rw [List.nil_append, ← List.append_nil after, List.dropWhile_append_of_pos dropped']
      rfl
  | cons c rest =>
      rw [dropWhile_of_head? (by exact trimmed.first), trimEnd_append dropped',
        trimEnd_of_getLast? trimmed.last]

/-- A text is what trimming leaves of it, and characters of the kind around that. -/
theorem exists_surround_trim (drop : Char → Bool) (cs : List Char) :
    ∃ before after, (∀ c ∈ before, drop c = true) ∧ (∀ c ∈ after, drop c = true) ∧
      cs = before ++ trim drop cs ++ after := by
  refine ⟨cs.takeWhile drop, ((cs.dropWhile drop).reverse.takeWhile drop).reverse, ?_, ?_, ?_⟩
  · exact fun c member => List.mem_takeWhile_imp member
  · exact fun c member => List.mem_takeWhile_imp (List.mem_reverse.mp member)
  · rw [trim, trimEnd, List.append_assoc, ← List.reverse_append, List.takeWhile_append_dropWhile,
      List.reverse_reverse, List.takeWhile_append_dropWhile]

theorem trim_sublist (drop : Char → Bool) (cs : List Char) : (trim drop cs).Sublist cs := by
  obtain ⟨before, after, -, -, same⟩ := exists_surround_trim drop cs
  have inside : (trim drop cs).Sublist (before ++ trim drop cs ++ after) :=
    (List.sublist_append_right before _).trans (List.sublist_append_left _ after)
  rwa [← same] at inside

theorem isTrimmed_trim (drop : Char → Bool) (cs : List Char) : IsTrimmed drop (trim drop cs) := by
  have kept : ∀ (cs : List Char), ∀ c ∈ (cs.dropWhile drop).head?, drop c = false := by
    intro cs c member
    have stopped := List.head?_dropWhile_not drop cs
    rw [Option.mem_def.mp member] at stopped
    simpa using stopped
  constructor
  · intro c member
    -- what the end loses does not reach the first character that remains
    obtain ⟨after, same⟩ : trim drop cs <+: cs.dropWhile drop := by
      rw [trim, trimEnd, ← List.reverse_suffix, List.reverse_reverse]
      exact List.dropWhile_suffix drop
    apply kept cs c
    rw [← same, List.head?_append, Option.mem_def, Option.mem_def.mp member]
    rfl
  · intro c member
    rw [trim, trimEnd, List.getLast?_reverse] at member
    exact kept _ c member

/-- What trimming leaves is the trimmed part of a text that has only characters of the kind around
it. -/
theorem trim_eq_iff :
    trim drop cs = core ↔ IsTrimmed drop core ∧ ∃ before after, (∀ c ∈ before, drop c = true) ∧
      (∀ c ∈ after, drop c = true) ∧ cs = before ++ core ++ after := by
  constructor
  · rintro rfl
    exact ⟨isTrimmed_trim drop cs, exists_surround_trim drop cs⟩
  · rintro ⟨trimmed, before, after, dropped, dropped', rfl⟩
    exact trim_surround trimmed dropped dropped'

end Text
end DesignTokens
