import AccessPolicy.Text.Hex
import Mathlib.Algebra.Group.Nat.Defs

/-!
# Reading hexadecimal numerals

The value of a numeral builds up from the left, so that a numeral of fixed width is read as the
remainder of the number that it was written for.
-/

namespace AccessPolicy.Text.Hex

/-- A numeral is read digit after digit. -/
theorem value?_append (high : Nat) (cs ds : List Char) :
    value? high (cs ++ ds) = (value? high cs).bind fun value => value? value ds := by
  induction cs generalizing high with
  | nil => rfl
  | cons c cs ih =>
    rw [List.cons_append, value?, value?, Option.bind_assoc]
    exact congrArg _ (funext fun d => ih _)

/-- The lowest digits of a number are read as what they count. -/
theorem value?_fixed (high width value : Nat) :
    value? high (fixed width value) = some (high * 16 ^ width + value % 16 ^ width) := by
  induction width generalizing value with
  | zero => simp only [fixed, value?, Nat.pow_zero, Nat.mul_one, Nat.mod_one, Nat.add_zero]
  | succ width ih =>
    have hlast : digit? (Nat.digitChar (value % 16)) = some (value % 16) :=
      digit?_digitChar _ (Nat.mod_lt _ (by decide))
    rw [fixed, value?_append, ih, Option.bind_some, value?, hlast, Option.bind_some, value?,
      Nat.pow_succ, Nat.mul_comm (16 ^ width) 16, Nat.mod_mul, Nat.mul_left_comm]
    congr 1
    omega

end AccessPolicy.Text.Hex
