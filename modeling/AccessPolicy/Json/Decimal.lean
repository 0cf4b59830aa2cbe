/-!
# Decimal numbers

A number with a fraction or an exponent stands for the binary floating-point number of double
precision nearest to it, the even one of two that are equally near. Only three things about that
number matter here: whether it is infinite, whether it has a fraction, and which integer it is.
All of it is computed exactly, on natural numbers.
-/

namespace AccessPolicy.Json

/-- A decimal number: a signed coefficient times a power of ten. -/
structure Decimal where
  /-- Whether a minus sign stands in front. -/
  negative : Bool
  /-- The digits without the point. -/
  coefficient : Nat
  /-- The power of ten by which the digits count. -/
  exponent : Int
  deriving DecidableEq, Repr

/-- What the double nearest to a number is. -/
inductive Nearest where
  /-- An integer. -/
  | integer (value : Int)
  /-- A number with a fraction. -/
  | fraction
  /-- Beyond the largest finite double. -/
  | infinite
  deriving DecidableEq, Repr

/-- The quotient rounded to the nearest integer, halves to the even neighbour. -/
def roundQuotient (numerator denominator : Nat) : Nat :=
  let quotient := numerator / denominator
  let twice := 2 * (numerator % denominator)
  if denominator < twice ∨ (twice = denominator ∧ quotient % 2 = 1) then quotient + 1 else quotient

/-- A rounded quotient is within half a unit of the quotient. -/
theorem roundQuotient_near {numerator denominator : Nat} (hpos : 0 < denominator) :
    2 * (roundQuotient numerator denominator * denominator) ≤ 2 * numerator + denominator ∧
      2 * numerator ≤ 2 * (roundQuotient numerator denominator * denominator) + denominator := by
  have hsplit := Nat.div_add_mod numerator denominator
  have hbound := Nat.mod_lt numerator hpos
  rw [Nat.mul_comm] at hsplit
  simp only [roundQuotient]
  split
  · rw [Nat.add_mul, Nat.one_mul]
    omega
  · omega

/-- The digits of a double's significand. -/
def significandBits : Nat := 53

/-- The exponent of the least significant bit of the smallest doubles. -/
def leastExponent : Int := -1074

/-- The number of bits in the integer part of the largest finite double. -/
def largestBits : Nat := 1024

/-- The exponent of the least significant bit of the double nearest to a positive quotient, before
rounding up changes the number of bits. -/
def unitExponent (numerator denominator : Nat) : Int :=
  let guess : Int := (Nat.log2 numerator : Int) - (Nat.log2 denominator : Int)
  let reached :=
    denominator * Nat.pow 2 guess.toNat ≤ numerator * Nat.pow 2 (-guess).toNat
  let magnitude := if reached then guess else guess - 1
  max (magnitude - (significandBits - 1)) leastExponent

/-- The double nearest to a positive quotient. -/
def nearestQuotient (numerator denominator : Nat) : Nearest :=
  let unit := unitExponent numerator denominator
  let significand :=
    roundQuotient (numerator * Nat.pow 2 (-unit).toNat) (denominator * Nat.pow 2 unit.toNat)
  let numerator := significand * Nat.pow 2 unit.toNat
  let denominator := Nat.pow 2 (-unit).toNat
  if Nat.pow 2 largestBits ≤ numerator / denominator then .infinite
  else if numerator % denominator = 0 then .integer (numerator / denominator)
  else .fraction

namespace Decimal

/-- A bound on the decimal magnitude beyond which a number is infinite or rounds to zero. -/
def magnitudeBound : Int := 400

/-- The double nearest to the absolute value of a decimal number. -/
def nearestAbsolute (decimal : Decimal) : Nearest :=
  let magnitude := (Nat.toDigits 10 decimal.coefficient).length + decimal.exponent
  if decimal.coefficient = 0 ∨ magnitude < -magnitudeBound then .integer 0
  else if magnitudeBound < magnitude then .infinite
  else nearestQuotient (decimal.coefficient * Nat.pow 10 decimal.exponent.toNat)
    (Nat.pow 10 (-decimal.exponent).toNat)

/-- The double nearest to a decimal number. -/
def nearest (decimal : Decimal) : Nearest :=
  match decimal.nearestAbsolute with
  | .integer value => .integer (if decimal.negative then -value else value)
  | other => other

end Decimal

end AccessPolicy.Json
