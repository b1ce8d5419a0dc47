import DesignTokens.Decimal.Floating
import Mathlib.Tactic.Ring

/-!
# Digits and magnitudes

The digits of a natural number are read back to it, and the first of them is not a zero unless the
number is.  A magnitude is the only one with its value: digits with zeros at either end, scaled by
the power of ten that these zeros ask for, give the same magnitude.
-/

namespace DesignTokens

/-! ## Digits -/

theorem natOfDigits_natChars (n : Nat) : natOfDigits (natChars n) = n :=
  Nat.ofDigitChars_ten_toDigits

theorem natOfDigits_append (first second : List Char) :
    natOfDigits (first ++ second) =
      natOfDigits first * 10 ^ second.length + natOfDigits second := by
  have split : natOfDigits (first ++ second) =
      Nat.ofDigitChars 10 second (natOfDigits first) := Nat.ofDigitChars_append 0
  rw [split, Nat.ofDigitChars_eq_ofDigitChars_zero, Nat.mul_comm]
  rfl

theorem natOfDigits_zeros (count : Nat) : natOfDigits (List.replicate count '0') = 0 :=
  Nat.ofDigitChars_replicate_zero

theorem natOfDigits_zeros_append (count : Nat) (digits : List Char) :
    natOfDigits (List.replicate count '0' ++ digits) = natOfDigits digits := by
  rw [natOfDigits_append, natOfDigits_zeros, Nat.zero_mul, Nat.zero_add]

theorem natOfDigits_append_zeros (digits : List Char) (count : Nat) :
    natOfDigits (digits ++ List.replicate count '0') = natOfDigits digits * 10 ^ count := by
  rw [natOfDigits_append, natOfDigits_zeros, List.length_replicate, Nat.add_zero]

theorem isDigit_natChars (n : Nat) : ∀ c ∈ natChars n, c.isDigit = true :=
  fun _ => Nat.isDigit_of_mem_toDigits (by decide) (by decide)

theorem isDigit_zeros (count : Nat) : ∀ c ∈ List.replicate count '0', c.isDigit = true :=
  fun _ member => List.eq_of_mem_replicate member ▸ rfl

theorem natChars_ne_nil (n : Nat) : natChars n ≠ [] := Nat.toDigits_ne_nil

/-- The first digit of a positive number is no zero. -/
theorem head?_natChars_ne_zero {n : Nat} (positive : 0 < n) : (natChars n).head? ≠ some '0' := by
  have single : ∀ digit < 10, 0 < digit → [digit.digitChar].head? ≠ some '0' := by decide
  induction n using Nat.strongRecOn with
  | ind n ih =>
      by_cases small : n < 10
      · have digit : natChars n = [n.digitChar] := Nat.toDigits_of_lt_base small
        rw [digit]
        exact single n small positive
      · have quotient : 0 < n / 10 := by omega
        have smaller : n / 10 < n := by omega
        have split : natChars n = natChars (n / 10) ++ [(n % 10).digitChar] :=
          Nat.toDigits_of_base_le (by decide) (by omega)
        have first := ih (n / 10) smaller quotient
        obtain ⟨c, others, digits⟩ := List.exists_cons_of_ne_nil (natChars_ne_nil (n / 10))
        rw [digits] at first
        rw [split, digits]
        exact first

/-! ## Magnitudes -/

namespace Decimal

theorem ofScaled_zero (exponent : Int) : ofScaled 0 exponent = zero := by
  rw [ofScaled, if_pos rfl]

/-- A magnitude is what its digits and its exponent give. -/
theorem ofScaled_self (magnitude : Decimal) :
    ofScaled magnitude.digits magnitude.exponent = magnitude := by
  obtain ⟨digits, exponent, canonical⟩ := magnitude
  rw [ofScaled]
  split
  · rename_i none
    have unscaled : exponent = 0 := by
      simp only at none
      rcases canonical with last | whole
      · simp [none] at last
      · exact whole.2
    subst unscaled
    simp only at none
    subst none
    rfl
  · rename_i some
    split
    · rename_i trailing
      rcases canonical with last | whole
      · exact absurd trailing last
      · exact absurd whole.1 some
    · rfl

theorem ofScaled_mul_ten (digits : Nat) (exponent : Int) :
    ofScaled (digits * 10) exponent = ofScaled digits (exponent + 1) := by
  by_cases none : digits = 0
  · rw [none, Nat.zero_mul, ofScaled_zero, ofScaled_zero]
  · have scaled : ¬digits * 10 = 0 := by omega
    rw [ofScaled, if_neg scaled, dif_pos (Nat.mul_mod_left digits 10),
      Nat.mul_div_cancel digits (by decide)]

/-- Zeros behind the digits count powers of ten. -/
theorem ofScaled_mul_pow (digits count : Nat) (exponent : Int) :
    ofScaled (digits * 10 ^ count) exponent = ofScaled digits (exponent + count) := by
  induction count generalizing exponent with
  | zero => simp
  | succ count ih =>
      rw [pow_succ, ← Nat.mul_assoc, ofScaled_mul_ten, ih, Nat.cast_succ]
      congr 1
      ring

theorem order_eq (magnitude : Decimal) :
    magnitude.order = magnitude.exponent + magnitude.digitChars.length - 1 := rfl

theorem isDigit_digitChars (magnitude : Decimal) : ∀ c ∈ magnitude.digitChars, c.isDigit = true :=
  isDigit_natChars magnitude.digits

theorem digitChars_ne_nil (magnitude : Decimal) : magnitude.digitChars ≠ [] :=
  natChars_ne_nil magnitude.digits

/-- The digits that are written are those of the magnitude. -/
theorem natOfDigits_digitChars (magnitude : Decimal) :
    natOfDigits magnitude.digitChars = magnitude.digits :=
  natOfDigits_natChars magnitude.digits

end Decimal
end DesignTokens
