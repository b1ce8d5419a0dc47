import DesignTokens.Decimal.Binary64

/-!
# Floating numbers

A floating number is a signed decimal magnitude, an infinity, or not a number.  It is written
positionally, with at least one digit on each side of the point, while its first digit counts a
power of ten from `-4` to `15`, and otherwise in scientific notation with a signed exponent of at
least two digits.
-/

namespace DesignTokens

/-- A number held to double precision. -/
inductive Floating
  /-- A signed magnitude; zero has a sign too. -/
  | finite (negative : Bool) (magnitude : Decimal)
  /-- A number beyond every finite one. -/
  | infinite (negative : Bool)
  /-- Not a number. -/
  | nan
  deriving DecidableEq

namespace Floating

instance : Inhabited Floating := ⟨.nan⟩

/-- The number written as `digits · 10 ^ exponent` after an optional sign. -/
def ofScaled (negative : Bool) (digits : Nat) (exponent : Int) : Floating :=
  match Decimal.toPrecision? digits exponent with
  | some magnitude => .finite negative magnitude
  | none => .infinite negative

/-- A magnitude with a point among or beside its digits. -/
def positionalChars (magnitude : Decimal) : List Char :=
  let digits := magnitude.digitChars
  match magnitude.exponent, magnitude.order with
  | .ofNat zeros, _ => digits ++ List.replicate zeros '0' ++ ['.', '0']
  | .negSucc _, .ofNat order => digits.take (order + 1) ++ '.' :: digits.drop (order + 1)
  | .negSucc _, .negSucc zeros => '0' :: '.' :: List.replicate zeros '0' ++ digits

/-- A decimal exponent with its sign and at least two digits. -/
def exponentChars (exponent : Int) : List Char :=
  let digits := natChars exponent.natAbs
  (if exponent < 0 then '-' else '+') :: (if digits.length < 2 then '0' :: digits else digits)

/-- A magnitude with one digit before the point, and an exponent. -/
def scientificChars (magnitude : Decimal) : List Char :=
  let digits := magnitude.digitChars
  let fraction := digits.drop 1
  digits.take 1 ++ (if fraction.isEmpty then [] else '.' :: fraction) ++
    'e' :: exponentChars magnitude.order

/-- A magnitude in the notation its size asks for. -/
def magnitudeChars (magnitude : Decimal) : List Char :=
  if -4 ≤ magnitude.order ∧ magnitude.order < 16 then positionalChars magnitude
  else scientificChars magnitude

/-- The sign, where there is one. -/
def signChars (negative : Bool) : List Char := if negative then ['-'] else []

/-- A floating number in writing. -/
def chars : Floating → List Char
  | .finite negative magnitude => signChars negative ++ magnitudeChars magnitude
  | .infinite negative => signChars negative ++ ['i', 'n', 'f']
  | .nan => ['n', 'a', 'n']

end Floating
end DesignTokens
