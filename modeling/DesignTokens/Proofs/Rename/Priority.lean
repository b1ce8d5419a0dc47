import DesignTokens.Proofs.Rename
import Mathlib.Data.List.Infix
import Mathlib.Data.List.Nodup

/-!
# Priority is length

Rules are ranked if none of them stands behind a rule that applies wherever it applies itself.  The
first of some ranked rules that applies to a path is the longest one, since of two patterns at the
end of one path the shorter ends the longer.  The table is ranked although it is not sorted by
length, and sorting it changes nothing.
-/

namespace DesignTokens
namespace Rename

/-- The first of some rules that applies to a path. -/
def firstOf? (rules : List Rename) (path : TokenPath) : Option Rename :=
  rules.find? fun rule => rule.applies path

/-- No rule stands behind a rule that applies wherever it applies itself. -/
def Ranked (rules : List Rename) : Prop :=
  rules.Pairwise fun earlier later => ¬earlier.pattern <:+ later.pattern

/-- The longest rules come first. -/
def Descending (rules : List Rename) : Prop :=
  rules.Pairwise fun earlier later => later.depth ≤ earlier.depth

/-- A rule applies to a path and is longer than every other one of some rules that does. -/
structure IsLongest (rules : List Rename) (path : TokenPath) (rule : Rename) : Prop where
  member : rule ∈ rules
  applies : rule.pattern <:+ path
  longer : ∀ other ∈ rules, other ≠ rule → other.pattern <:+ path → other.depth < rule.depth

/-! ## Longest rules -/

theorem IsLongest.unique {rules : List Rename} {path : TokenPath} {first second : Rename}
    (longest : IsLongest rules path first) (alike : IsLongest rules path second) :
    first = second := by
  by_contra different
  have shorter := alike.longer first longest.member different longest.applies
  have longer := longest.longer second alike.member (Ne.symm different) alike.applies
  exact Nat.lt_asymm shorter longer

theorem IsLongest.of_perm {rules others : List Rename} (reordered : rules.Perm others)
    {path : TokenPath} {rule : Rename} (longest : IsLongest rules path rule) :
    IsLongest others path rule where
  member := reordered.mem_iff.mp longest.member
  applies := longest.applies
  longer other member := longest.longer other (reordered.mem_iff.mpr member)

theorem firstOf?_eq_none_iff (rules : List Rename) (path : TokenPath) :
    firstOf? rules path = none ↔ ∀ rule ∈ rules, ¬rule.pattern <:+ path := by
  simp only [firstOf?, List.find?_eq_none, applies_iff]

/-- Of two patterns at the end of one path, one that does not end the other is the longer one. -/
theorem depth_lt_of_suffix {path : TokenPath} {rule other : Rename}
    (applies : rule.pattern <:+ path) (alike : other.pattern <:+ path)
    (unlike : ¬rule.pattern <:+ other.pattern) : other.depth < rule.depth := by
  have ends : other.pattern <:+ rule.pattern :=
    (List.suffix_or_suffix_of_suffix applies alike).resolve_left unlike
  refine Nat.lt_of_le_of_ne ends.length_le fun same => unlike ?_
  exact ends.eq_of_length same ▸ List.suffix_rfl

/-- The first of some ranked rules that applies is the longest one. -/
theorem isLongest_of_firstOf? {rules : List Rename} (ranked : Ranked rules) {path : TokenPath}
    {rule : Rename} (found : firstOf? rules path = some rule) : IsLongest rules path rule := by
  obtain ⟨applies, before, after, rfl, passed⟩ := List.find?_eq_some_iff_append.mp found
  have suffix := (applies_iff rule path).mp applies
  refine ⟨by simp, suffix, ?_⟩
  intro other member different alike
  rcases List.mem_append.mp member with earlier | later
  · have none := passed other earlier
    rw [(applies_iff other path).mpr alike] at none
    exact absurd none Bool.false_ne_true
  · have behind := (List.mem_cons.mp later).resolve_left different
    have unlike := List.rel_of_pairwise_cons (List.pairwise_append.mp ranked).2.1 behind
    exact depth_lt_of_suffix suffix alike unlike

theorem firstOf?_eq_some_iff {rules : List Rename} (ranked : Ranked rules) (path : TokenPath)
    (rule : Rename) : firstOf? rules path = some rule ↔ IsLongest rules path rule := by
  refine ⟨isLongest_of_firstOf? ranked, fun longest => ?_⟩
  cases found : firstOf? rules path with
  | none => exact absurd longest.applies ((firstOf?_eq_none_iff _ _).mp found _ longest.member)
  | some other => rw [(isLongest_of_firstOf? ranked found).unique longest]

/-! ## Orders of the table -/

theorem ranked_table : Ranked table := by
  unfold Ranked
  decide +kernel

theorem nodup_patterns_table : (table.map pattern).Nodup := by
  decide +kernel

/-- Rules with different patterns are ranked if the longest ones come first. -/
theorem Descending.ranked {rules : List Rename} (descending : Descending rules)
    (distinct : (rules.map pattern).Nodup) : Ranked rules := by
  refine (descending.and (List.pairwise_map.mp distinct)).imp ?_
  rintro earlier later ⟨shorter, different⟩ ends
  exact different (ends.eq_of_length (Nat.le_antisymm ends.length_le shorter))

/-- A path is renamed by the longest rule of the table that applies to it, if any rule does, and by
the same rule if the table is sorted by length in any way. -/
theorem find?_is_longest_match (path : TokenPath) :
    (find? path = none ↔ ∀ rule ∈ table, ¬rule.pattern <:+ path) ∧
    (∀ rule, find? path = some rule ↔ IsLongest table path rule) ∧
    ∀ rules, rules.Perm table → Descending rules → firstOf? rules path = find? path := by
  have longest : ∀ rule, find? path = some rule ↔ IsLongest table path rule :=
    firstOf?_eq_some_iff ranked_table path
  refine ⟨firstOf?_eq_none_iff table path, longest, ?_⟩
  intro rules reordered descending
  have distinct : (rules.map pattern).Nodup :=
    (reordered.map pattern).nodup_iff.mpr nodup_patterns_table
  have ranked := descending.ranked distinct
  ext rule
  rw [longest, firstOf?_eq_some_iff ranked]
  exact ⟨.of_perm reordered, .of_perm reordered.symm⟩

/-- The table with the longest rules first. -/
def sortedTable : List Rename := table.mergeSort fun first second => second.depth ≤ first.depth

theorem descending_sortedTable : Descending sortedTable := by
  have sorted := @List.pairwise_mergeSort Rename
    (fun first second => decide (second.depth ≤ first.depth))
    (fun _ _ _ first second => decide_eq_true ((of_decide_eq_true second).trans
      (of_decide_eq_true first)))
    (fun first second => by simpa using Nat.le_total second.depth first.depth) table
  exact sorted.imp of_decide_eq_true

/-- Muted text below a hover state is renamed by the rule for it and not by the one for muted text,
in the table, where shorter rules precede it, as in the sorted table. -/
theorem hoverMutedColor_is_longest_match :
    IsLongest table ["list", "hover", "muted", "color"]
      (.mk ["hover", "muted", "color"] "hoverMutedColor") ∧
    sortedTable.Perm table ∧ Descending sortedTable ∧
    firstOf? sortedTable ["list", "hover", "muted", "color"] =
      find? ["list", "hover", "muted", "color"] := by
  have reordered : sortedTable.Perm table := List.mergeSort_perm table _
  have longest := find?_is_longest_match ["list", "hover", "muted", "color"]
  exact ⟨(longest.2.1 _).mp (by decide), reordered, descending_sortedTable,
    longest.2.2 sortedTable reordered descending_sortedTable⟩

end Rename
end DesignTokens
