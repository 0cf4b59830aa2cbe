/-!
# Comparison

Values are compared by their parts. A list of values holds as many different values as the set
that it makes.
-/

namespace AccessPolicy

/-- The number of different values in a list. -/
def countDistinct {α : Type} [DecidableEq α] (values : List α) : Nat := values.eraseDups.length

/-- How two values compare. -/
structure Comparison where
  /-- Whether they are equal. -/
  equal : Bool
  /-- How many different values they are. -/
  distinct : Nat
  deriving DecidableEq, Repr

/-- The comparison of two values. -/
def Comparison.of {α : Type} [DecidableEq α] (a b : α) : Comparison :=
  ⟨decide (a = b), countDistinct [a, b]⟩

end AccessPolicy
