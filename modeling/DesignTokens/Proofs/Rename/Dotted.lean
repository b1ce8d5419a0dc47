import DesignTokens.Proofs.Rename
import Mathlib.Data.List.Infix

/-!
# Rules written with dots

A text is taken apart into pieces without a separator in one way only.  So the text of a rule gives
its pattern and back, and the text of a path gives its keys, if no key has a dot of its own.  With a
dot before each of them, the text of the path ends with that of the rule exactly if the path ends
with the pattern: the dot stands for the boundary at which the first key of the pattern begins.
-/

namespace DesignTokens

/-! ## Pieces -/

namespace Text

variable {α : Type} [DecidableEq α] {separator : α}

theorem split_of_not_mem {piece : List α} (free : separator ∉ piece) :
    split separator piece = [piece] := by
  induction piece with
  | nil => rfl
  | cons a rest ih =>
      rw [List.mem_cons, not_or] at free
      rw [split_cons_of_ne (Ne.symm free.1), ih free.2, List.modifyHead_cons]

/-- A separator divides the pieces into those before it and those behind it. -/
theorem split_append_separator (before after : List α) :
    split separator (before ++ separator :: after) =
      split separator before ++ split separator after := by
  induction before with
  | nil => simp
  | cons a before ih =>
      rw [List.cons_append]
      by_cases same : a = separator
      · rw [same, split_separator_cons, split_separator_cons, ih, List.cons_append]
      · obtain ⟨piece, more, pieces⟩ :=
          List.exists_cons_of_ne_nil (split_ne_nil separator before)
        rw [split_cons_of_ne same, split_cons_of_ne same, ih, pieces, List.cons_append,
          List.modifyHead_cons, List.modifyHead_cons, List.cons_append]

/-- Joined pieces without the separator are taken apart again. -/
theorem split_intercalate {pieces : List (List α)} (proper : pieces ≠ [])
    (free : ∀ piece ∈ pieces, separator ∉ piece) :
    split separator ([separator].intercalate pieces) = pieces := by
  induction pieces with
  | nil => exact absurd rfl proper
  | cons piece pieces ih =>
      obtain ⟨here, others⟩ := List.forall_mem_cons.mp free
      cases pieces with
      | nil => rw [List.intercalate_singleton, split_of_not_mem here]
      | cons next pieces =>
          rw [List.intercalate_cons_cons, List.append_assoc, List.singleton_append,
            split_append_separator, split_of_not_mem here, ih (List.cons_ne_nil _ _) others,
            List.singleton_append]

theorem endsWith_iff_suffix (text ending : String) :
    text.endsWith ending = true ↔ ending.toList <:+ text.toList := by
  rw [String.endsWith_eq_endsWith_toSlice, String.Slice.endsWith_string_iff, String.copy_toSlice]

end Text

/-! ## Paths -/

namespace TokenPath

/-- No key of a path has a dot of its own. -/
def IsDotFree (path : TokenPath) : Prop := ∀ key ∈ path, '.' ∉ key.toList

theorem toList_dotted (path : TokenPath) :
    (dotted path).toList = ['.'].intercalate (path.map String.toList) :=
  String.toList_intercalate

theorem dotted_ofDotted (text : String) : dotted (ofDotted text) = text := by
  have pieces : (ofDotted text).map String.toList = Text.split '.' text.toList := by
    simp [ofDotted, Function.comp_def]
  rw [← String.toList_inj, toList_dotted, pieces, Text.intercalate_split]

theorem ofDotted_dotted {path : TokenPath} (proper : path ≠ []) (free : IsDotFree path) :
    ofDotted (dotted path) = path := by
  have pieces : Text.split '.' (['.'].intercalate (path.map String.toList)) =
      path.map String.toList :=
    Text.split_intercalate (by simpa using proper) (List.forall_mem_map.mpr free)
  rw [ofDotted, toList_dotted, pieces]
  simp [Function.comp_def]

theorem dotted_append {before after : TokenPath} (proper : before ≠ []) (proper' : after ≠ []) :
    dotted (before ++ after) = dotted before ++ "." ++ dotted after :=
  String.intercalate_append_of_ne_nil proper proper'

/-- A path ends with the keys of a text exactly if its own text ends with it, from a dot on. -/
theorem ofDotted_suffix_iff {path : TokenPath} (proper : path ≠ []) (free : IsDotFree path)
    (text : String) :
    ofDotted text <:+ path ↔ '.' :: text.toList <:+ '.' :: (dotted path).toList := by
  constructor
  · rintro ⟨before, rfl⟩
    by_cases first : before = []
    · rw [first, List.nil_append, dotted_ofDotted]
    · refine ⟨'.' :: (dotted before).toList, ?_⟩
      rw [dotted_append first (ofDotted_ne_nil text), dotted_ofDotted]
      simp
  · rintro ⟨before, same⟩
    -- what stands before the text ends at a dot, so that no key is cut in two
    have pieces : Text.split '.' before ++ Text.split '.' text.toList =
        [] :: Text.split '.' (dotted path).toList := by
      rw [← Text.split_append_separator, same, Text.split_separator_cons]
    obtain ⟨first, more, cut⟩ := List.exists_cons_of_ne_nil (Text.split_ne_nil '.' before)
    rw [cut, List.cons_append, List.cons.injEq] at pieces
    refine ⟨more.map String.ofList, ?_⟩
    rw [ofDotted, ← List.map_append, pieces.2]
    exact ofDotted_dotted proper free

end TokenPath

/-! ## Rules -/

namespace Rename

/-- A rule applies to a path exactly if its pattern is the row of the last keys, as many as it has;
a longer pattern applies to no path. -/
theorem applies_iff_drop (rule : Rename) (path : TokenPath) :
    rule.applies path = true ↔
      rule.depth ≤ path.length ∧ path.drop (path.length - rule.depth) = rule.pattern := by
  rw [applies_iff, depth]
  constructor
  · intro ends
    exact ⟨ends.length_le, (List.suffix_iff_eq_drop.mp ends).symm⟩
  · rintro ⟨-, last⟩
    exact last ▸ List.drop_suffix _ path

/-- The text of a rule is the one that it was given.  The rule applies to a path by comparing whole
keys, and that is the same as comparing the ends of the texts from a dot on, if no key has a dot of
its own.  The empty path has the text of a single empty key, but no rule applies to it. -/
theorem ofDotted_applies_iff_endsWith (dotted name : String) :
    (ofDotted dotted name).dotted = dotted ∧
      ∀ path : TokenPath,
        ((ofDotted dotted name).applies path = true ↔
          (ofDotted dotted name).depth ≤ path.length ∧
            path.drop (path.length - (ofDotted dotted name).depth) =
              (ofDotted dotted name).pattern) ∧
        (TokenPath.IsDotFree path →
          ((ofDotted dotted name).applies path = true ↔
            path ≠ [] ∧ ("." ++ TokenPath.dotted path).endsWith ("." ++ dotted) = true)) := by
  refine ⟨TokenPath.dotted_ofDotted dotted, fun path => ⟨applies_iff_drop _ path, ?_⟩⟩
  intro free
  rw [applies_iff, Text.endsWith_iff_suffix, String.toList_append, String.toList_append]
  by_cases empty : path = []
  · simpa [empty] using (ofDotted dotted name).proper
  · exact (TokenPath.ofDotted_suffix_iff empty free dotted).trans (by simp [empty])

/-- A rule with an empty first key applies at an empty key, and no rule applies in the middle of a
key. -/
theorem emptyKey_applies_and_borderColor_does_not :
    TokenPath.IsDotFree ["hover", "", "color"] ∧
      (ofDotted ".color" "accentColor").applies ["hover", "", "color"] = true ∧
      ("." ++ "hover..color").endsWith ("." ++ ".color") = true ∧
    TokenPath.IsDotFree ["hoverborder", "color"] ∧
      (ofDotted "border.color" "borderColor").applies ["hoverborder", "color"] = false ∧
      ("." ++ "hoverborder.color").endsWith ("." ++ "border.color") = false := by
  have free : TokenPath.IsDotFree ["hover", "", "color"] := by simp [TokenPath.IsDotFree]
  have free' : TokenPath.IsDotFree ["hoverborder", "color"] := by simp [TokenPath.IsDotFree]
  have below := ((ofDotted_applies_iff_endsWith ".color" "accentColor").2 _).2 free
  have inside := ((ofDotted_applies_iff_endsWith "border.color" "borderColor").2 _).2 free'
  have applies : (ofDotted ".color" "accentColor").applies ["hover", "", "color"] = true := by
    decide
  have unlike :
      (ofDotted "border.color" "borderColor").applies ["hoverborder", "color"] = false := by
    decide
  refine ⟨free, applies, (below.mp applies).2, free', unlike, ?_⟩
  rw [← Bool.not_eq_true]
  intro ends
  rw [inside.mpr ⟨by simp, ends⟩] at unlike
  exact Bool.false_ne_true unlike.symm

end Rename
end DesignTokens
