import DesignTokens.Proofs.Literal.Reading

/-!
# Unique decoding

What is written determines the tree, up to parts without a value, and it determines where the
writing ends.  The reader that shows this counts a line feed behind a bare name as part of it, takes
every character in quotes for itself, and knows words for the numbers that are not finite.
-/

namespace DesignTokens
namespace Script

/-- The number that is not finite and has this word. -/
def boundless? : List Char → Option Scalar
  | ['i', 'n', 'f'] => some (.real (.infinite false))
  | ['-', 'i', 'n', 'f'] => some (.real (.infinite true))
  | ['n', 'a', 'n'] => some (.real .nan)
  | _ => none

/-- The dialect that reads back all that is written. -/
def tolerant : Dialect where
  isNamePart c := Literal.isNamePart c || c == '\n'
  isName _ := true
  isRaw _ := true
  word? cs := (word? cs).or (boundless? cs)
  isNamePart_of_literal c part := by rw [part, Bool.true_or]
  isNamePart_colon := rfl

theorem tolerant_name? (name : String) : tolerant.name? name = some name := by
  by_cases bare : Literal.isBare name = true
  · have parts : ∀ c ∈ name.toList, tolerant.isNamePart c = true := by
      obtain ⟨tail, whole, feeds⟩ := Literal.exists_beforeNewline name.toList
      rw [whole]
      refine List.forall_mem_append.mpr ⟨fun c member => ?_, fun c member => ?_⟩
      · exact tolerant.isNamePart_of_literal c ((Literal.stem_of_isBare bare).2 c member)
      · rw [feeds c member]
        rfl
    have stem : tolerant.stem name = name.toList := List.takeWhile_eq_self_iff.mpr parts
    have named : tolerant.isName name.toList = true := rfl
    rw [Dialect.name?, if_pos bare, stem, if_pos named, String.ofList_toList]
  · have text : name.toList.all tolerant.isText = true := List.all_eq_true.mpr fun _ _ => rfl
    rw [Dialect.name?, if_neg bare, if_pos text]

theorem tolerant_word?_of_word? {cs : List Char} {leaf : Scalar} (denoted : word? cs = some leaf) :
    tolerant.word? cs = some leaf := by
  have either : tolerant.word? cs = (word? cs).or (boundless? cs) := rfl
  rw [either, denoted, Option.some_or]

theorem tolerant_scalar? (leaf : Scalar) : tolerant.scalar? leaf = some leaf := by
  cases leaf with
  | bool value => cases value <;> rfl
  | int value => exact tolerant_word?_of_word? (word?_of_number? (number?_intChars value))
  | real value =>
      cases value with
      | finite negative magnitude =>
          exact tolerant_word?_of_word? (word?_of_number? (number?_finite negative magnitude))
      | infinite negative => cases negative <;> rfl
      | nan => rfl
  | str text => exact if_pos (List.all_eq_true.mpr fun _ _ => rfl)

theorem tolerant_object? (entries : List (String × Json)) (indent : Int) (rest : List Char) :
    tolerant.object? (Literal.object indent (.object entries) ++ rest) =
      some ((Json.object entries).prune, rest) := by
  have recovered : tolerant.value? (.object entries) = some (Json.object entries).prune :=
    (Dialect.value?_eq_some_prune_iff (fun key => iff_of_true (tolerant_name? key) rfl)
      (fun leaf => iff_of_true (tolerant_scalar? leaf) rfl) rfl).mpr
      (Json.passes_of_forall (fun _ => rfl) (fun _ => rfl) (.object entries))
  rw [tolerant.object?_object, recovered, Option.map_some]

end Script

namespace Literal

/-- Two objects with texts behind them are written alike exactly if the texts are the same and the
objects differ only in parts without a value. -/
theorem object_append_eq_iff (indent : Int) (first second : List (String × Json))
    (rest other : List Char) :
    object indent (.object first) ++ rest = object indent (.object second) ++ other ↔
      (Json.object first).prune = (Json.object second).prune ∧ rest = other := by
  constructor
  · intro same
    have decoded := congrArg Script.tolerant.object? same
    rw [Script.tolerant_object?, Script.tolerant_object?] at decoded
    exact Prod.mk.inj (Option.some.inj decoded)
  · rintro ⟨pruned, rfl⟩
    rw [← object_prune indent (.object first), pruned, object_prune]

end Literal
end DesignTokens
