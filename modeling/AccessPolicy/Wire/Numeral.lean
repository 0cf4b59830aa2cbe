/-!
# Numerals

A plain numeral is a minus sign, if there is one, and digits that start with a zero only when it
is the only one. Its length is limited.

A loose numeral stands for a plain one. It may have a sign in front, a fraction of zeros behind
it, zeros that lead, and single underscores inside. Zeros that lead may have any number of
underscores among them, and are dropped together with these, so that what follows them, a minus
sign included, counts as if it stood in front.
-/

namespace AccessPolicy.Wire.Numeral

/-- The number of characters that a plain numeral may have. -/
def longest : Nat := 4300

/-! ## Plain numerals -/

/-- Whether characters are digits and start with a zero only when it is the only one. -/
def isPlain (run : List Char) : Bool :=
  !run.isEmpty && run.all Char.isDigit && (run.length = 1 || run.head? ≠ some '0')

/-- The number of a plain run of digits. -/
def unsigned? (run : List Char) : Option Nat :=
  if isPlain run then some (Nat.ofDigitChars 10 run 0) else none

/-- The integer of a plain numeral of whatever length. -/
def integer? : List Char → Option Int
  | '-' :: run => (unsigned? run).map fun n : Nat => -(n : Int)
  | run => (unsigned? run).map fun n : Nat => (n : Int)

/-- The integer of a plain numeral that is not too long. -/
def plain? (cs : List Char) : Option Int := if longest < cs.length then none else integer? cs

/-- Whether characters start with more digits than `limit`, the first of which is not zero. -/
def exceeds (limit : Nat) (cs : List Char) : Bool :=
  cs.head? ≠ some '0' && decide (limit < (cs.takeWhile Char.isDigit).length)

/-- Whether characters start with a numeral that would be plain if it were not too long. -/
def isOversized : List Char → Bool
  | '-' :: rest => exceeds (longest - 1) rest
  | cs => exceeds longest cs

/-! ## Loose numerals -/

/-- Whether characters are a point and at least one zero. -/
def isZeroFraction : List Char → Bool
  | [] => false
  | _ :: zeros => !zeros.isEmpty && zeros.all (· = '0')

/-- A numeral without its fraction, if that consists of zeros. -/
def withoutZeroFraction (cs : List Char) : List Char :=
  if isZeroFraction (cs.dropWhile (· ≠ '.')) then cs.takeWhile (· ≠ '.') else cs

/-- Whether a character may stand among zeros that lead. -/
def isPadding (c : Char) : Bool := c = '0' || c = '_'

/-- A numeral without the zeros that lead and the underscores among them; if there is nothing
else, the last character stays. -/
def withoutLeadingZeros (cs : List Char) : List Char :=
  if cs.head? = some '0' then
    match cs.dropWhile isPadding with
    | [] => cs.getLast?.toList
    | rest => rest
  else cs

/-- Whether every underscore stands alone between two other characters, of which there is at least
one. -/
def isGrouped : List Char → Bool
  | [] => false
  | [c] => c ≠ '_'
  | c :: '_' :: rest => c ≠ '_' && isGrouped rest
  | c :: rest => c ≠ '_' && isGrouped rest

/-- A numeral without its underscores, if they stand where they may. -/
def ungrouped? (cs : List Char) : Option (List Char) :=
  if isGrouped cs then some (cs.filter (· ≠ '_')) else none

/-- What an unsigned loose numeral is without all that it may have in addition. -/
def reduced? (cs : List Char) : Option (List Char) :=
  ungrouped? (withoutLeadingZeros (withoutZeroFraction cs))

/-- The characters that a loose numeral stands for, plain or not. -/
def signed? : List Char → Option (List Char)
  | '-' :: rest => (reduced? rest).map ('-' :: ·)
  | '+' :: '-' :: _ => none
  | '+' :: rest => reduced? rest
  | cs => reduced? cs

/-- The integer of a loose numeral. -/
def loose? (cs : List Char) : Option Int := (signed? cs).bind plain?

/-- Digits are not underscores, so there is nothing to remove from a run of them. -/
theorem ungrouped?_of_digits {run : List Char} (hne : run ≠ [])
    (hrun : ∀ c ∈ run, c.isDigit = true) : ungrouped? run = some run := by
  have hdigit : ∀ c : Char, c.isDigit = true → c ≠ '_' := by
    rintro c h rfl
    exact absurd h (by decide)
  have hgrouped : isGrouped run = true := by
    fun_induction isGrouped run with
    | case1 => exact absurd rfl hne
    | case2 c => exact decide_eq_true (hdigit c (hrun c List.mem_cons_self))
    | case3 c rest ih =>
      exact absurd rfl (hdigit '_' (hrun '_' (List.mem_cons_of_mem c List.mem_cons_self)))
    | case4 c rest more _ ih =>
      have hfirst : decide (c ≠ '_') = true :=
        decide_eq_true (hdigit c (hrun c List.mem_cons_self))
      rw [hfirst, Bool.true_and]
      exact ih more fun d hd => hrun d (List.mem_cons_of_mem c hd)
  rw [ungrouped?, if_pos hgrouped, List.filter_eq_self.2 fun c hc =>
    decide_eq_true (hdigit c (hrun c hc))]

end AccessPolicy.Wire.Numeral
