/-!
# Decimal texts

An integer is written out in decimal digits with a minus sign in front if it is negative. There may
be a limit on the number of digits, which is meant to keep the work of writing them out in bounds.
-/

namespace AccessPolicy.Text

/-- The decimal text of an integer; what is refused is refused with the limit that it exceeds. The
sign does not count for the limit. -/
def decimal (digits : Option Nat) (value : Int) : Except Nat String :=
  match digits with
  | none => .ok (toString value)
  | some most => if value.natAbs.repr.length ≤ most then .ok (toString value) else .error most

end AccessPolicy.Text
