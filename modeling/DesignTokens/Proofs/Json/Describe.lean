import DesignTokens.Json.Describe
import DesignTokens.Proofs.Token.Tree

/-!
# What stands in running text

Numbers are written with the characters of a small alphabet.  No number, truth value or null reads
like a word that has other letters, so a value without parts that reads like such a word is that
word.
-/

namespace DesignTokens

/-- Whether a character occurs in the writing of numbers. -/
def isNumberChar (c : Char) : Bool :=
  c.isDigit || ['+', '-', '.', 'e', 'i', 'n', 'f', 'a'].contains c

theorem isNumberChar_natChars (n : Nat) : ∀ c ∈ natChars n, isNumberChar c = true := by
  intro c member
  rw [isNumberChar, Nat.isDigit_of_mem_toDigits (by decide) (by decide) member, Bool.true_or]

theorem isNumberChar_intChars (value : Int) : ∀ c ∈ intChars value, isNumberChar c = true := by
  cases value with
  | ofNat n => exact isNumberChar_natChars n
  | negSucc n => exact List.forall_mem_cons.mpr ⟨rfl, isNumberChar_natChars (n + 1)⟩

theorem isNumberChar_replicate (count : Nat) :
    ∀ c ∈ List.replicate count '0', isNumberChar c = true :=
  fun _ member => List.eq_of_mem_replicate member ▸ rfl

namespace Floating

theorem isNumberChar_positionalChars (magnitude : Decimal) :
    ∀ c ∈ positionalChars magnitude, isNumberChar c = true := by
  have digits := isNumberChar_natChars magnitude.digits
  unfold positionalChars
  split
  · refine List.forall_mem_append.mpr ⟨List.forall_mem_append.mpr ⟨digits, ?_⟩, ?_⟩
    · exact isNumberChar_replicate _
    · exact List.all_eq_true.mp rfl
  · refine List.forall_mem_append.mpr ⟨?_, List.forall_mem_cons.mpr ⟨rfl, ?_⟩⟩
    · exact fun c member => digits c (List.mem_of_mem_take member)
    · exact fun c member => digits c (List.mem_of_mem_drop member)
  · refine List.forall_mem_append.mpr ⟨?_, digits⟩
    exact List.forall_mem_cons.mpr ⟨rfl, List.forall_mem_cons.mpr ⟨rfl, isNumberChar_replicate _⟩⟩

theorem isNumberChar_exponentChars (exponent : Int) :
    ∀ c ∈ exponentChars exponent, isNumberChar c = true := by
  have digits := isNumberChar_natChars exponent.natAbs
  rw [exponentChars, List.forall_mem_cons]
  constructor
  · split <;> rfl
  · split
    · exact List.forall_mem_cons.mpr ⟨rfl, digits⟩
    · exact digits

theorem isNumberChar_scientificChars (magnitude : Decimal) :
    ∀ c ∈ scientificChars magnitude, isNumberChar c = true := by
  have digits := isNumberChar_natChars magnitude.digits
  rw [scientificChars, List.forall_mem_append, List.forall_mem_append, List.forall_mem_cons]
  refine ⟨⟨fun c member => digits c (List.mem_of_mem_take member), ?_⟩, rfl,
    isNumberChar_exponentChars magnitude.order⟩
  split
  · exact nofun
  · exact List.forall_mem_cons.mpr ⟨rfl, fun c member => digits c (List.mem_of_mem_drop member)⟩

theorem isNumberChar_chars (value : Floating) : ∀ c ∈ value.chars, isNumberChar c = true := by
  have sign : ∀ negative, ∀ c ∈ signChars negative, isNumberChar c = true := by
    intro negative
    cases negative <;> exact List.all_eq_true.mp rfl
  cases value with
  | finite negative magnitude =>
      refine List.forall_mem_append.mpr ⟨sign negative, ?_⟩
      unfold magnitudeChars
      split
      · exact isNumberChar_positionalChars magnitude
      · exact isNumberChar_scientificChars magnitude
  | infinite negative =>
      exact List.forall_mem_append.mpr ⟨sign negative, List.all_eq_true.mp rfl⟩
  | nan => exact List.all_eq_true.mp rfl

end Floating

/-- Whether a character occurs in the writing of a value without parts that is no text. -/
def isLiteralChar (c : Char) : Bool :=
  isNumberChar c || ['N', 'T', 'F', 'o', 'e', 'r', 's', 'u', 'l'].contains c

namespace Json

theorem isLiteralChar_describe {value : Json} (simple : value.isSimple = true)
    (textless : ∀ text, value ≠ .str text) :
    ∀ c ∈ value.describe.toList, isLiteralChar c = true := by
  have number : ∀ {cs : List Char}, (∀ c ∈ cs, isNumberChar c = true) →
      ∀ c ∈ (String.ofList cs).toList, isLiteralChar c = true := by
    intro cs valid c member
    rw [String.toList_ofList] at member
    rw [isLiteralChar, valid c member, Bool.true_or]
  cases value with
  | null => exact List.all_eq_true.mp rfl
  | list items => exact absurd simple Bool.false_ne_true
  | object entries => exact absurd simple Bool.false_ne_true
  | scalar value =>
      cases value with
      | bool value => cases value <;> exact List.all_eq_true.mp rfl
      | int value => exact number (isNumberChar_intChars value)
      | real value => exact number value.isNumberChar_chars
      | str text => exact absurd rfl (textless text)

/-- A value without parts is a text if no other value without parts reads like it. -/
theorem eq_str_of_describe {value : Json} (simple : value.isSimple = true)
    (foreign : ∃ c ∈ value.describe.toList, isLiteralChar c = false) :
    ∃ text, value = .str text := by
  by_contra textless
  obtain ⟨c, member, foreign⟩ := foreign
  have literal := isLiteralChar_describe simple (not_exists.mp textless) c member
  exact Bool.false_ne_true (foreign.symm.trans literal)

end Json

end DesignTokens
