/-!
# Decimal magnitudes

A magnitude is written with finitely many decimal digits.  The last digit is not zero unless the
magnitude is zero, so equal magnitudes are equal values.
-/

namespace DesignTokens

/-- The magnitude `digits · 10 ^ exponent`. -/
structure Decimal where
  /-- The significant digits, read as a natural number. -/
  digits : Nat
  /-- The power of ten that the last digit counts. -/
  exponent : Int
  /-- There is one way to write a magnitude. -/
  canonical : digits % 10 ≠ 0 ∨ digits = 0 ∧ exponent = 0
  deriving DecidableEq

namespace Decimal

/-- The magnitude zero. -/
def zero : Decimal := ⟨0, 0, .inr ⟨rfl, rfl⟩⟩

instance : Inhabited Decimal := ⟨zero⟩

/-- The magnitude `digits · 10 ^ exponent`, without trailing zeros. -/
def ofScaled (digits : Nat) (exponent : Int) : Decimal :=
  if digits = 0 then zero
  else if trailing : digits % 10 = 0 then ofScaled (digits / 10) (exponent + 1)
  else ⟨digits, exponent, .inl trailing⟩
termination_by digits
decreasing_by omega

/-- The digits in order. -/
def digitChars (decimal : Decimal) : List Char := Nat.toDigits 10 decimal.digits

/-- The power of ten that the first digit counts. -/
def order (decimal : Decimal) : Int :=
  decimal.exponent + (decimal.digitChars.length : Int) - 1

end Decimal

/-- A natural number in decimal notation. -/
def natChars (n : Nat) : List Char := Nat.toDigits 10 n

/-- An integer in decimal notation. -/
def intChars : Int → List Char
  | .ofNat n => natChars n
  | .negSucc n => '-' :: natChars (n + 1)

/-- The value of a run of decimal digits. -/
def natOfDigits (digits : List Char) : Nat :=
  digits.foldl (fun value c => 10 * value + (c.toNat - '0'.toNat)) 0

end DesignTokens
