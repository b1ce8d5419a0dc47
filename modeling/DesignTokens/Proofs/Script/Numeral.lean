import DesignTokens.Literal
import DesignTokens.Proofs.Decimal.Digits

/-!
# Decimal literals

How a script reads a number: an optional sign, a whole part without leading zeros, and optionally a
point with the digits of a fraction, and an exponent.  A literal denotes its exact value.  It is a
whole number if it has neither point nor exponent, and a floating number otherwise.  Every whole
number and every finite floating number is written as the literal that denotes it.
-/

namespace DesignTokens
namespace Script

/-- The natural number that a row of digits denotes. -/
def natural? (digits : List Char) : Option Int :=
  if !digits.isEmpty && digits.all Char.isDigit then some (natOfDigits digits : Int) else none

/-- The power of ten that an exponent denotes; there may be no exponent. -/
def exponent? : List Char → Option Int
  | [] => some 0
  | mark :: rest =>
      if mark = 'e' || mark = 'E' then
        match rest with
        | '-' :: digits => (natural? digits).map fun power => -power
        | '+' :: digits => natural? digits
        | digits => natural? digits
      else none

/-- The digits of a fraction, if there is a point, and what follows. -/
def fraction : List Char → List Char × List Char
  | '.' :: rest => (rest.takeWhile Char.isDigit, rest.dropWhile Char.isDigit)
  | rest => ([], rest)

/-- The number that a literal without a sign denotes, or its opposite. -/
def unsigned? (negative : Bool) (cs : List Char) : Option Scalar :=
  let whole := cs.takeWhile Char.isDigit
  let rest := cs.dropWhile Char.isDigit
  let (digits, scale) := fraction rest
  if !Literal.isInteger whole && (!whole.isEmpty || digits.isEmpty) then none
  else if rest.isEmpty then
    let magnitude : Int := natOfDigits whole
    some (.int (if negative then -magnitude else magnitude))
  else
    (exponent? scale).map fun power =>
      .real (.finite negative (.ofScaled (natOfDigits (whole ++ digits)) (power - digits.length)))

/-- The number that a literal denotes. -/
def number? : List Char → Option Scalar
  | '-' :: rest => unsigned? true rest
  | '+' :: rest => unsigned? false rest
  | rest => unsigned? false rest

/-! ## Whole parts -/

theorem isInteger_of_digits {cs : List Char} (nonempty : cs ≠ []) (first : cs.head? ≠ some '0')
    (digits : ∀ c ∈ cs, c.isDigit = true) : Literal.isInteger cs = true := by
  cases cs with
  | nil => exact absurd rfl nonempty
  | cons c rest =>
      obtain ⟨here, others⟩ := List.forall_mem_cons.mp digits
      have other : c ≠ '0' := fun same => first (congrArg some same)
      have unfolded : Literal.isInteger (c :: rest) =
          (c.isDigit && c != '0' && rest.all Char.isDigit) := by
        rw [Literal.isInteger]
        exact fun zero _ => other zero
      rw [unfolded, here, List.all_eq_true.mpr others, bne_iff_ne.mpr other]
      rfl

theorem isInteger_natChars (n : Nat) : Literal.isInteger (natChars n) = true := by
  rcases Nat.eq_zero_or_pos n with rfl | positive
  · rfl
  · exact isInteger_of_digits (natChars_ne_nil n) (head?_natChars_ne_zero positive)
      (isDigit_natChars n)

/-! ## Literals -/

/-- A row of characters of a kind ends where a character of another kind follows. -/
theorem takeWhile_dropWhile_append {kind : Char → Bool} {row rest : List Char}
    (inside : ∀ c ∈ row, kind c = true) (stops : ∀ c ∈ rest.head?, kind c = false) :
    (row ++ rest).takeWhile kind = row ∧ (row ++ rest).dropWhile kind = rest := by
  rw [List.takeWhile_append_of_pos inside, List.dropWhile_append_of_pos inside]
  cases rest with
  | nil => simp
  | cons c rest =>
      have other : ¬kind c = true := by simp [stops c rfl]
      rw [List.takeWhile_cons_of_neg other, List.dropWhile_cons_of_neg other, List.append_nil]
      exact ⟨rfl, rfl⟩

theorem natural?_of_digits {digits : List Char} (nonempty : digits ≠ [])
    (valid : ∀ c ∈ digits, c.isDigit = true) :
    natural? digits = some (natOfDigits digits : Int) := by
  rw [natural?, List.all_eq_true.mpr valid, List.isEmpty_eq_false_iff.mpr nonempty]
  rfl

/-- The digits of an exponent are two at least, so that a single one has a zero in front of it. -/
theorem natural?_exponent (power : Nat) :
    natural? (if (natChars power).length < 2 then '0' :: natChars power else natChars power) =
      some (power : Int) := by
  have digits := isDigit_natChars power
  split
  · have padded : natOfDigits ('0' :: natChars power) = natOfDigits (natChars power) :=
      natOfDigits_zeros_append 1 (natChars power)
    rw [natural?_of_digits (List.cons_ne_nil _ _) (List.forall_mem_cons.mpr ⟨rfl, digits⟩), padded,
      natOfDigits_natChars]
  · rw [natural?_of_digits (natChars_ne_nil power) digits, natOfDigits_natChars]

theorem exponent?_exponentChars (exponent : Int) :
    exponent? ('e' :: Floating.exponentChars exponent) = some exponent := by
  have read := natural?_exponent exponent.natAbs
  have minus : ∀ row, exponent? ('e' :: '-' :: row) = (natural? row).map fun power => -power :=
    fun _ => rfl
  have plus : ∀ row, exponent? ('e' :: '+' :: row) = natural? row := fun _ => rfl
  rw [Floating.exponentChars]
  by_cases negative : exponent < 0
  · have magnitude : -(exponent.natAbs : Int) = exponent := by omega
    rw [if_pos negative, minus, read, Option.map_some, magnitude]
  · have magnitude : (exponent.natAbs : Int) = exponent := by omega
    rw [if_neg negative, plus, read, magnitude]

/-- A row of digits and nothing else is a whole number. -/
theorem unsigned?_whole (negative : Bool) {whole : List Char}
    (integer : Literal.isInteger whole = true) (digits : ∀ c ∈ whole, c.isDigit = true) :
    unsigned? negative whole =
      some (.int (if negative then -(natOfDigits whole : Int) else natOfDigits whole)) := by
  have stops : ∀ c ∈ ([] : List Char).head?, c.isDigit = false := nofun
  obtain ⟨taken, dropped⟩ := takeWhile_dropWhile_append digits stops
  rw [List.append_nil] at taken dropped
  simp [unsigned?, taken, dropped, integer]

/-- A row of digits with a fraction or an exponent behind it is a floating number. -/
theorem unsigned?_scaled (negative : Bool) {whole rest digits scale : List Char}
    (integer : Literal.isInteger whole = true) (wholeDigits : ∀ c ∈ whole, c.isDigit = true)
    (nonempty : rest ≠ []) (stops : ∀ c ∈ rest.head?, c.isDigit = false)
    (parts : fraction rest = (digits, scale)) {power : Int}
    (scaled : exponent? scale = some power) :
    unsigned? negative (whole ++ rest) =
      some (.real (.finite negative
        (.ofScaled (natOfDigits (whole ++ digits)) (power - digits.length)))) := by
  obtain ⟨taken, dropped⟩ := takeWhile_dropWhile_append wholeDigits stops
  simp [unsigned?, taken, dropped, integer, nonempty, parts, scaled]

/-- A point and a row of digits are a fraction. -/
theorem fraction_pointed {digits scale : List Char} (valid : ∀ c ∈ digits, c.isDigit = true)
    (stops : ∀ c ∈ scale.head?, c.isDigit = false) :
    fraction ('.' :: (digits ++ scale)) = (digits, scale) := by
  obtain ⟨taken, dropped⟩ := takeWhile_dropWhile_append valid stops
  rw [fraction, taken, dropped]

/-- A literal with a point among its digits. -/
theorem unsigned?_pointed (negative : Bool) {whole digits : List Char}
    (integer : Literal.isInteger whole = true) (wholeDigits : ∀ c ∈ whole, c.isDigit = true)
    (fractionDigits : ∀ c ∈ digits, c.isDigit = true) :
    unsigned? negative (whole ++ '.' :: digits) =
      some (.real (.finite negative
        (.ofScaled (natOfDigits (whole ++ digits)) (-digits.length)))) := by
  have stops : ∀ c ∈ ([] : List Char).head?, c.isDigit = false := nofun
  have parts := fraction_pointed fractionDigits stops
  rw [List.append_nil] at parts
  rw [unsigned?_scaled negative integer wholeDigits (List.cons_ne_nil _ _)
    (by simp +decide) parts rfl, Int.zero_sub]

/-! ## Written numbers -/

theorem number?_of_unsigned? {cs : List Char} {scalar : Scalar}
    (denoted : unsigned? false cs = some scalar) : number? cs = some scalar := by
  unfold number?
  split
  · cases denoted
  · cases denoted
  · exact denoted

theorem number?_intChars (value : Int) : number? (intChars value) = some (.int value) := by
  cases value with
  | ofNat n =>
      have denoted := unsigned?_whole false (isInteger_natChars n) (isDigit_natChars n)
      rw [natOfDigits_natChars] at denoted
      exact number?_of_unsigned? denoted
  | negSucc n =>
      have denoted := unsigned?_whole true (isInteger_natChars (n + 1)) (isDigit_natChars (n + 1))
      rw [natOfDigits_natChars] at denoted
      exact denoted

section Magnitude

variable {magnitude : Decimal}

/-- A row of digits that begins like those of a positive magnitude is a whole part. -/
theorem isInteger_of_head? (positive : 0 < magnitude.digits) {row : List Char}
    (head : row.head? = magnitude.digitChars.head?) (digits : ∀ c ∈ row, c.isDigit = true) :
    Literal.isInteger row = true := by
  refine isInteger_of_digits ?_ (head ▸ head?_natChars_ne_zero positive) digits
  rintro rfl
  exact magnitude.digitChars_ne_nil (List.head?_eq_none_iff.mp head.symm)

/-- The first digits of a positive magnitude are a whole part, and the others are digits. -/
theorem take_drop_digitChars (positive : 0 < magnitude.digits) (count : Nat) :
    Literal.isInteger (magnitude.digitChars.take (count + 1)) = true ∧
      (∀ c ∈ magnitude.digitChars.take (count + 1), c.isDigit = true) ∧
        ∀ c ∈ magnitude.digitChars.drop (count + 1), c.isDigit = true := by
  have digits := magnitude.isDigit_digitChars
  have front : ∀ c ∈ magnitude.digitChars.take (count + 1), c.isDigit = true :=
    fun c member => digits c (List.mem_of_mem_take member)
  have head : (magnitude.digitChars.take (count + 1)).head? = magnitude.digitChars.head? := by
    rw [List.head?_take, if_neg (Nat.succ_ne_zero count)]
  exact ⟨isInteger_of_head? positive head front, front,
    fun c member => digits c (List.mem_of_mem_drop member)⟩

/-- Zeros behind the digits of a magnitude, with a point before the last of them. -/
theorem unsigned?_digits_zeros (negative : Bool) (positive : 0 < magnitude.digits) {zeros : Nat}
    (exponent : magnitude.exponent = zeros) :
    unsigned? negative (magnitude.digitChars ++ List.replicate zeros '0' ++ ['.', '0']) =
      some (.real (.finite negative magnitude)) := by
  have digits := List.forall_mem_append.mpr ⟨magnitude.isDigit_digitChars, isDigit_zeros zeros⟩
  have head : (magnitude.digitChars ++ List.replicate zeros '0').head? =
      magnitude.digitChars.head? := by
    have first := List.isSome_head?.mpr magnitude.digitChars_ne_nil
    rw [List.head?_append, Option.or_of_isSome first]
  have padded : magnitude.digitChars ++ List.replicate zeros '0' ++ ['0'] =
      magnitude.digitChars ++ List.replicate (zeros + 1) '0' := by
    rw [List.append_assoc, List.replicate_succ']
  have scale : -(['0'].length : Int) + (zeros + 1 : Nat) = magnitude.exponent := by
    rw [exponent, List.length_singleton]
    omega
  have fraction : ∀ c ∈ ['0'], c.isDigit = true := isDigit_zeros 1
  rw [unsigned?_pointed negative (isInteger_of_head? positive head digits) digits fraction, padded,
    natOfDigits_append_zeros, Decimal.natOfDigits_digitChars, Decimal.ofScaled_mul_pow, scale,
    Decimal.ofScaled_self]

/-- A point among the digits of a magnitude. -/
theorem unsigned?_digits_digits (negative : Bool) (positive : 0 < magnitude.digits) {count : Nat}
    (exponent : magnitude.exponent = -(magnitude.digitChars.drop (count + 1)).length) :
    unsigned? negative
        (magnitude.digitChars.take (count + 1) ++ '.' :: magnitude.digitChars.drop (count + 1)) =
      some (.real (.finite negative magnitude)) := by
  obtain ⟨integer, front, back⟩ := take_drop_digitChars positive count
  rw [unsigned?_pointed negative integer front back, List.take_append_drop,
    Decimal.natOfDigits_digitChars, ← exponent, Decimal.ofScaled_self]

/-- Zeros between the point and the digits of a magnitude. -/
theorem unsigned?_zeros_digits (negative : Bool) {zeros : Nat}
    (exponent : magnitude.exponent = -(zeros + magnitude.digitChars.length : Nat)) :
    unsigned? negative ('0' :: '.' :: List.replicate zeros '0' ++ magnitude.digitChars) =
      some (.real (.finite negative magnitude)) := by
  have digits := List.forall_mem_append.mpr ⟨isDigit_zeros zeros, magnitude.isDigit_digitChars⟩
  have value : natOfDigits (['0'] ++ (List.replicate zeros '0' ++ magnitude.digitChars)) =
      magnitude.digits := by
    have front : ['0'] ++ (List.replicate zeros '0' ++ magnitude.digitChars) =
        List.replicate (zeros + 1) '0' ++ magnitude.digitChars := rfl
    rw [front, natOfDigits_zeros_append, Decimal.natOfDigits_digitChars]
  have scale : (List.replicate zeros '0' ++ magnitude.digitChars).length =
      zeros + magnitude.digitChars.length := by
    rw [List.length_append, List.length_replicate]
  have denoted := unsigned?_pointed negative rfl (isDigit_zeros 1) digits
  rw [List.replicate_one, value, scale, ← exponent, Decimal.ofScaled_self] at denoted
  exact denoted

theorem unsigned?_positionalChars (negative : Bool) (positive : 0 < magnitude.digits) :
    unsigned? negative (Floating.positionalChars magnitude) =
      some (.real (.finite negative magnitude)) := by
  have order := magnitude.order_eq
  unfold Floating.positionalChars
  split
  case h_1 exponent => exact unsigned?_digits_zeros negative positive exponent
  case h_2 fraction count exponent whole =>
    refine unsigned?_digits_digits negative positive ?_
    rw [Int.ofNat_eq_natCast] at whole
    rw [List.length_drop]
    omega
  case h_3 fraction zeros exponent small =>
    refine unsigned?_zeros_digits negative ?_
    omega

/-- One digit before the point, and an exponent. -/
theorem unsigned?_scientificChars (negative : Bool) (positive : 0 < magnitude.digits) :
    unsigned? negative (Floating.scientificChars magnitude) =
      some (.real (.finite negative magnitude)) := by
  obtain ⟨integer, front, back⟩ := take_drop_digitChars positive 0
  have nonempty := List.length_pos_iff.mpr magnitude.digitChars_ne_nil
  have order := magnitude.order_eq
  have scale : magnitude.order - (magnitude.digitChars.drop 1).length = magnitude.exponent := by
    rw [List.length_drop]
    omega
  -- without a second digit there is no point either
  have parts : fraction ((if (magnitude.digitChars.drop 1).isEmpty then []
      else '.' :: magnitude.digitChars.drop 1) ++ 'e' :: Floating.exponentChars magnitude.order) =
        (magnitude.digitChars.drop 1, 'e' :: Floating.exponentChars magnitude.order) := by
    split
    · rename_i empty
      rw [List.isEmpty_iff.mp empty]
      rfl
    · exact fraction_pointed back (by simp)
  have stops : ∀ c ∈ ((if (magnitude.digitChars.drop 1).isEmpty then []
      else '.' :: magnitude.digitChars.drop 1) ++
        'e' :: Floating.exponentChars magnitude.order).head?, c.isDigit = false := by
    split <;> simp +decide
  rw [Floating.scientificChars, List.append_assoc,
    unsigned?_scaled negative integer front (by simp) stops parts (exponent?_exponentChars _),
    List.take_append_drop, Decimal.natOfDigits_digitChars, scale, Decimal.ofScaled_self]

/-- A magnitude is written as a literal that denotes it. -/
theorem unsigned?_magnitudeChars (negative : Bool) (magnitude : Decimal) :
    unsigned? negative (Floating.magnitudeChars magnitude) =
      some (.real (.finite negative magnitude)) := by
  rcases Nat.eq_zero_or_pos magnitude.digits with none | positive
  · have zero : magnitude = Decimal.zero := by
      rw [← Decimal.ofScaled_self magnitude, none, Decimal.ofScaled_zero]
    have denoted := unsigned?_pointed negative rfl (isDigit_zeros 1) (isDigit_zeros 1)
    have value : natOfDigits (List.replicate 1 '0' ++ List.replicate 1 '0') = 0 := rfl
    rw [value, Decimal.ofScaled_zero] at denoted
    rw [zero]
    exact denoted
  · rw [Floating.magnitudeChars]
    split
    · exact unsigned?_positionalChars negative positive
    · exact unsigned?_scientificChars negative positive

end Magnitude

theorem number?_finite (negative : Bool) (magnitude : Decimal) :
    number? (Floating.finite negative magnitude).chars =
      some (.real (.finite negative magnitude)) := by
  have denoted := unsigned?_magnitudeChars negative magnitude
  cases negative with
  | false => exact number?_of_unsigned? denoted
  | true => exact denoted

end Script
end DesignTokens
