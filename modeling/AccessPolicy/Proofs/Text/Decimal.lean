import AccessPolicy.Text.Decimal
import Mathlib.Algebra.Order.Ring.Nat

/-!
# How long decimal texts are

A limit of so many digits is kept by the numbers below the power of ten with this exponent. A number
that keeps it has its plain text, and any other one has none.
-/

namespace AccessPolicy.Text

/-- A power of ten has one digit more than its exponent counts. -/
theorem length_toDigits_pow {exponent : Nat} (h : 0 < exponent) :
    (Nat.toDigits 10 (10 ^ exponent)).length = exponent + 1 := by
  refine Nat.le_antisymm ?_ (Nat.not_le.mp ?_)
  · rw [Nat.length_toDigits_le_iff (by decide) (Nat.succ_pos exponent)]
    exact Nat.pow_lt_pow_right (by decide) (Nat.lt_succ_self exponent)
  · rw [Nat.length_toDigits_le_iff (by decide) h]
    exact Nat.lt_irrefl _

variable {digits : Option Nat} {value : Int} {text : String} {most : Nat}

/-- What is written out is the plain text. -/
theorem eq_toString_of_decimal (h : decimal digits value = .ok text) : text = toString value := by
  unfold decimal at h
  split at h
  · exact (Except.ok.inj h).symm
  · split at h
    · exact (Except.ok.inj h).symm
    · cases h

/-- A number has no more digits than a limit exactly if it is below the power of ten. -/
private theorem length_repr_le_iff (h : 0 < most) (number : Nat) :
    number.repr.length ≤ most ↔ number < 10 ^ most := by
  rw [← String.length_toList, Nat.toList_repr, Nat.length_toDigits_le_iff (by decide) h]

/-- Under a limit exactly the numbers below a power of ten are written out. -/
theorem decimal_some_eq_ok_iff (h : 0 < most) :
    decimal (some most) value = .ok (toString value) ↔ value.natAbs < 10 ^ most := by
  rw [← length_repr_le_iff h, decimal]
  split
  · rename_i hle
    exact iff_of_true rfl hle
  · rename_i hle
    exact iff_of_false nofun hle

/-- Any other number is refused. -/
theorem decimal_some_eq_error_iff (h : 0 < most) :
    decimal (some most) value = .error most ↔ 10 ^ most ≤ value.natAbs := by
  rw [← not_lt, ← length_repr_le_iff h, decimal]
  split
  · rename_i hle
    exact iff_of_false nofun (not_not_intro hle)
  · rename_i hle
    exact iff_of_true rfl hle

end AccessPolicy.Text
