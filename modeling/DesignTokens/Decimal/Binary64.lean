import DesignTokens.Decimal.Basic

/-!
# Double precision

Decimal fractions are held to double precision: a fraction is replaced by the nearest number of the
form `mantissa · 2 ^ exponent` with a mantissa below `2 ^ 53` and an exponent of at least `-1074`, a
tie going to the even mantissa.  Such a number is written with the fewest decimal digits from which
it is read back, and among these with the digits nearest to it.
-/

namespace DesignTokens

/-- The number `mantissa · 2 ^ exponent`. -/
structure Binary64 where
  /-- The significant bits. -/
  mantissa : Nat
  /-- The power of two that the last bit counts. -/
  exponent : Int
  deriving DecidableEq, Repr

namespace Binary64

/-- The quotient of two naturals rounded to the nearest natural, a tie going to the even one. -/
def roundDiv (numerator denominator : Nat) : Nat :=
  let quotient := numerator / denominator
  let twice := 2 * (numerator % denominator)
  if twice < denominator then quotient
  else if denominator < twice then quotient + 1
  else quotient + quotient % 2

/-- The fraction `n · base ^ exponent`, as numerator and denominator. -/
def scaled (n base : Nat) : (exponent : Int) → Nat × Nat
  | .ofNat exponent => (n * base.pow exponent, 1)
  | .negSucc exponent => (n, base.pow (exponent + 1))

/-- The fraction divided by `2 ^ exponent`, as numerator and denominator. -/
def shifted (numerator denominator : Nat) : (exponent : Int) → Nat × Nat
  | .ofNat exponent => (numerator, denominator * Nat.pow 2 exponent)
  | .negSucc exponent => (numerator * Nat.pow 2 (exponent + 1), denominator)

/-- The least mantissa of 53 bits. -/
def fullMantissa : Nat := Nat.pow 2 52

/-- The exponent at which a positive fraction has a mantissa of 53 bits, but at least `-1074`. -/
def exponentFor (numerator denominator : Nat) : Int :=
  let guess : Int := (Nat.log2 numerator : Int) - (Nat.log2 denominator : Int) - 52
  let fraction := shifted numerator denominator guess
  max (if fraction.1 / fraction.2 < fullMantissa then guess - 1 else guess) (-1074)

/-- The number nearest to a positive fraction, or nothing if it exceeds every finite number. -/
def nearest (numerator denominator : Nat) : Option Binary64 :=
  let exponent := exponentFor numerator denominator
  let fraction := shifted numerator denominator exponent
  let mantissa := roundDiv fraction.1 fraction.2
  let number : Binary64 :=
    if mantissa = 2 * fullMantissa then ⟨fullMantissa, exponent + 1⟩ else ⟨mantissa, exponent⟩
  if 971 < number.exponent then none else some number

/-- The numbers between `lower` and `upper` are those that read back as `middle`; all three count
units of the same size, and the ends belong to them if `closed`. -/
structure Window where
  /-- Where the next smaller number begins. -/
  lower : Nat
  /-- The number itself. -/
  middle : Nat
  /-- Where the next larger number begins. -/
  upper : Nat
  /-- Whether the ends read back too. -/
  closed : Bool
  deriving DecidableEq, Repr

namespace Window

/-- Whether the fraction `numerator / denominator` of a unit reads back. -/
def admits (window : Window) (numerator denominator : Nat) : Bool :=
  if window.closed then
    decide (window.lower * denominator ≤ numerator ∧ numerator ≤ window.upper * denominator)
  else
    decide (window.lower * denominator < numerator ∧ numerator < window.upper * denominator)

end Window

/-- The numbers that read back as `number`, in units of a quarter of its last bit. -/
def window (number : Binary64) : Window :=
  let middle := 4 * number.mantissa
  let below := if number.mantissa = fullMantissa ∧ -1074 < number.exponent then 1 else 2
  ⟨middle - below, middle, middle + 2, number.mantissa % 2 = 0⟩

/-- The multiple of `10 ^ place` nearest to a number among its two neighbours that read back, by its
factor; a tie goes to the even factor. -/
def onGrid? (number : Binary64) (place : Int) : Option Nat :=
  let window := number.window
  let grid := scaled 1 10 place
  let unit := scaled 1 2 (number.exponent - 2)
  -- a factor `k` of the grid is `k · size / parts` units
  let size := grid.1 * unit.2
  let parts := grid.2 * unit.1
  let factor := window.middle * parts / size
  let rest := window.middle * parts % size
  let low := window.admits (factor * size) parts
  let high := window.admits ((factor + 1) * size) parts
  match low, high with
  | false, false => none
  | true, false => some factor
  | false, true => some (factor + 1)
  | true, true =>
      if 2 * rest < size then some factor
      else if size < 2 * rest then some (factor + 1)
      else some (factor + factor % 2)

/-- The coarsest grid, from `place` on and at most `grids` grids down, with a multiple that reads
back. -/
def search (number : Binary64) : (grids : Nat) → (place : Int) → Decimal
  | 0, _ => Decimal.zero
  | grids + 1, place =>
      match number.onGrid? place with
      | some factor => Decimal.ofScaled factor place
      | none => search number grids (place - 1)

/-- The number of decimal digits of a natural. -/
def width (n : Nat) : Nat := (natChars n).length

/-- The shortest decimal that reads back.  Seventeen digits always suffice, and the first grid tried
is at most two places too coarse. -/
def shortest (number : Binary64) : Decimal :=
  if number.mantissa = 0 then Decimal.zero
  else
    let fraction := scaled number.mantissa 2 number.exponent
    search number 20 ((width fraction.1 : Int) - (width fraction.2 : Int) + 1)

end Binary64

namespace Decimal

/-- The decimal magnitude `digits · 10 ^ exponent` held to double precision, or nothing if it
exceeds every finite number.  Magnitudes far beyond either end of the range are settled by the place
of their first digit alone. -/
def toPrecision? (digits : Nat) (exponent : Int) : Option Decimal :=
  let first := exponent + (Binary64.width digits : Int)
  if digits = 0 ∨ first < -330 then some zero
  else if 320 < first then none
  else
    let fraction := Binary64.scaled digits 10 exponent
    (Binary64.nearest fraction.1 fraction.2).map Binary64.shortest

end Decimal
end DesignTokens
