/-!
# Decimal text of double precision numbers

A finite double precision number is exactly `± m * 2 ^ e` for natural `m`.  Its decimal text with a
given number of digits is the text of the nearest decimal number of that shape, and of two equally
near ones the one with an even last digit.  All rounding here happens on that exact value, in
natural numbers, by one function.

* `roundQuotient`: the nearest integer to a quotient, ties to even.
* `Value.ofFloat`: the exact value of a number.
* `fixed`: digits before and a given number of digits after the point.
* `scientific`: one digit before and a given number of digits after the point, times a power of ten
  that follows an `e`.
* `roundQuotient_mul_two_le`, `le_roundQuotient_mul_two`: a rounded quotient is within half a unit.
-/

namespace ActiveSet.Decimal

/-! ## Rounding -/

/-- The integer nearest to `a / b`; a quotient halfway between two integers goes to the even
one. -/
def roundQuotient (a b : Nat) : Nat :=
  let q := a / b
  let r := a % b
  if b < 2 * r ∨ (2 * r = b ∧ q % 2 = 1) then q + 1 else q

/-- A rounded quotient exceeds the quotient by at most one half. -/
theorem roundQuotient_mul_two_le {a b : Nat} (hb : 0 < b) :
    2 * (roundQuotient a b * b) ≤ 2 * a + b := by
  have hdiv := Nat.div_add_mod a b
  have hmod := Nat.mod_lt a hb
  have hcomm : b * (a / b) = a / b * b := Nat.mul_comm _ _
  simp only [roundQuotient]
  split
  · rw [Nat.add_mul]
    omega
  · omega

/-- A rounded quotient falls short of the quotient by at most one half. -/
theorem le_roundQuotient_mul_two {a b : Nat} (hb : 0 < b) :
    2 * a ≤ 2 * (roundQuotient a b * b) + b := by
  have hdiv := Nat.div_add_mod a b
  have hmod := Nat.mod_lt a hb
  have hcomm : b * (a / b) = a / b * b := Nat.mul_comm _ _
  simp only [roundQuotient]
  split
  · rw [Nat.add_mul]
    omega
  · omega

/-! ## Exact values -/

/-- The finite number `± mantissa * 2 ^ exponent`. -/
structure Binary where
  /-- Whether a minus sign precedes the number; zero has a sign too. -/
  negative : Bool
  /-- The integer factor. -/
  mantissa : Nat
  /-- The power of two. -/
  exponent : Int
deriving DecidableEq, Repr

/-- What a double precision number stands for. -/
inductive Value where
  /-- No number at all. -/
  | undefined
  /-- Beyond all finite numbers. -/
  | infinite (negative : Bool)
  /-- A finite number. -/
  | finite (value : Binary)
deriving DecidableEq, Repr

/-- The value behind the bits of a number: a sign bit, eleven bits of exponent and fifty-two bits
of fraction, with a leading one bit implied unless the exponent bits are all zero. -/
def Value.ofFloat (x : Float) : Value :=
  let bits : Nat := x.toBits.toNat
  let negative : Bool := bits / Nat.pow 2 63 % 2 == 1
  let field : Nat := bits / Nat.pow 2 52 % Nat.pow 2 11
  let fraction : Nat := bits % Nat.pow 2 52
  if field = 2047 then (if fraction = 0 then .infinite negative else .undefined)
  else if field = 0 then .finite ⟨negative, fraction, -1074⟩
  else .finite ⟨negative, Nat.pow 2 52 + fraction, (field : Int) - 1075⟩

/-- The numerator of the magnitude as a fraction of natural numbers. -/
def Binary.numerator (v : Binary) : Nat := v.mantissa * Nat.pow 2 v.exponent.toNat

/-- The denominator of the magnitude as a fraction of natural numbers. -/
def Binary.denominator (v : Binary) : Nat := Nat.pow 2 (-v.exponent).toNat

/-! ## Digits -/

/-- The number of decimal digits of a natural number. -/
def digitCount (k : Nat) : Nat := (toString k).length

/-- The text of a number with leading zeros up to a width. -/
def padded (width k : Nat) : String :=
  let digits := toString k
  String.ofList (List.replicate (width - digits.length) '0') ++ digits

/-- The sign in front of a text. -/
def signed (negative : Bool) (text : String) : String :=
  if negative then "-" ++ text else text

/-- An integer with its last `places` digits behind a point. -/
def pointed (places k : Nat) : String :=
  if places = 0 then toString k
  else toString (k / Nat.pow 10 places) ++ "." ++ padded places (k % Nat.pow 10 places)

/-- The magnitude in positional notation with `places` digits after the point. -/
def Binary.fixed (v : Binary) (places : Nat) : String :=
  signed v.negative (pointed places (roundQuotient (v.numerator * Nat.pow 10 places) v.denominator))

/-- The power of ten of the leading digit of `a / b`, for `a` and `b` other than zero: the digit
counts of `a` and `b` determine it up to one. -/
def leadingPower (a b : Nat) : Int :=
  let k : Int := (digitCount a : Int) - digitCount b
  if b * Nat.pow 10 k.toNat ≤ a * Nat.pow 10 (-k).toNat then k else k - 1

/-- The digits of `a / b` rounded to one digit before and `places` digits after the point, read as
one integer, and the power of ten to go with them.  Rounding up from a row of nines adds a digit,
which moves into the power. -/
def significantDigits (places a b : Nat) : Nat × Int :=
  if a = 0 then (0, 0)
  else
    let power := leadingPower a b
    let shift : Int := places - power
    let digits := roundQuotient (a * Nat.pow 10 shift.toNat) (b * Nat.pow 10 (-shift).toNat)
    if digits = Nat.pow 10 (places + 1) then (Nat.pow 10 places, power + 1) else (digits, power)

/-- The magnitude in scientific notation with `places` digits after the point. -/
def Binary.scientific (v : Binary) (places : Nat) : String :=
  let (digits, power) := significantDigits places v.numerator v.denominator
  signed v.negative (pointed places digits ++ "e" ++ toString power)

/-! ## Numbers in reports -/

/-- The text of a number in scientific notation, with the words that reports use for values that
are not finite. -/
def scientific (places : Nat) (x : Float) : String :=
  match Value.ofFloat x with
  | .undefined => "NaN"
  | .infinite negative => signed negative "inf"
  | .finite v => v.scientific places

/-- The number of digits after the point in reports of a solver. -/
def reportPlaces : Nat := 3

/-- A number as it stands in a report: four significant digits. -/
def report (x : Float) : String := scientific reportPlaces x

/-- A natural number, right-aligned in a column of a report. -/
def rightAligned (width k : Nat) : String :=
  let digits := toString k
  String.ofList (List.replicate (width - digits.length) ' ') ++ digits

end ActiveSet.Decimal
