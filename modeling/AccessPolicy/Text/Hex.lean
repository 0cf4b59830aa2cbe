/-!
# Hexadecimal numerals

Numerals of a fixed width are written in lower case and read in either case.
-/

namespace AccessPolicy.Text.Hex

/-- The lowest `width` hexadecimal digits of a number, most significant first. -/
def fixed : (width : Nat) → (value : Nat) → List Char
  | 0, _ => []
  | width + 1, value => fixed width (value / 16) ++ [Nat.digitChar (value % 16)]

@[simp] theorem length_fixed (width value : Nat) : (fixed width value).length = width := by
  induction width generalizing value with
  | zero => rfl
  | succ width ih => simp only [fixed, List.length_append, ih, List.length_singleton]

/-- The value of a hexadecimal digit in either case. -/
def digit? (c : Char) : Option Nat :=
  if '0' ≤ c ∧ c ≤ '9' then some (c.toNat - '0'.toNat)
  else if 'a' ≤ c ∧ c ≤ 'f' then some (c.toNat - 'a'.toNat + 10)
  else if 'A' ≤ c ∧ c ≤ 'F' then some (c.toNat - 'A'.toNat + 10)
  else none

/-- Every hexadecimal digit that is written is read back. -/
theorem digit?_digitChar : ∀ n, n < 16 → digit? (Nat.digitChar n) = some n := by
  decide

/-- The value of a numeral, most significant digit first, continuing from `high`. -/
def value? (high : Nat) : List Char → Option Nat
  | [] => some high
  | c :: rest => (digit? c).bind fun d => value? (16 * high + d) rest

end AccessPolicy.Text.Hex
