import AccessPolicy.Proofs.Json.Soundness
import AccessPolicy.Proofs.Json.Written
import Mathlib.Algebra.Group.Nat.Defs

/-!
# The length of integers that were read

The digits of an integer that was read are written back with at most as many characters, since no
zero leads in them. So an integer that the reader's limit let in stays within the limit.
-/

namespace AccessPolicy.Json

open Reader Grammar

/-- A run of digits, continuing from a number, counts less than the next power of ten. -/
private theorem ofDigitChars_lt {run : List Char} (hr : ∀ c ∈ run, c.isDigit = true)
    (high : Nat) : Nat.ofDigitChars 10 run high < (high + 1) * 10 ^ run.length := by
  induction run generalizing high with
  | nil =>
    rw [Nat.ofDigitChars_nil, List.length_nil, Nat.pow_zero, Nat.mul_one]
    omega
  | cons c run ih =>
    have hc := Char.isDigit_iff_toNat.mp (hr c List.mem_cons_self)
    have hrest : ∀ d ∈ run, d.isDigit = true := fun d hd => hr d (List.mem_cons_of_mem c hd)
    have hlt := ih hrest (10 * high + (c.toNat - '0'.toNat))
    have hstep : 10 * high + (c.toNat - '0'.toNat) + 1 ≤ 10 * (high + 1) := by
      have hten : '9'.toNat = '0'.toNat + 9 := rfl
      omega
    rw [Nat.ofDigitChars_cons, List.length_cons, Nat.pow_succ]
    calc
      _ < _ := hlt
      _ ≤ 10 * (high + 1) * 10 ^ run.length := Nat.mul_le_mul_right _ hstep
      _ = (high + 1) * (10 ^ run.length * 10) := by
        rw [Nat.mul_comm 10, Nat.mul_assoc, Nat.mul_comm 10]

/-- A number is written with at most as many digits as it was read from. -/
private theorem length_toDigits_natural_le {run : List Char} (hr : Run run) :
    (Nat.toDigits 10 (natural run)).length ≤ run.length := by
  rw [Nat.length_toDigits_le_iff (by decide) (List.length_pos_iff.mpr hr.1)]
  have hlt := ofDigitChars_lt hr.2 0
  rwa [Nat.zero_add, Nat.one_mul] at hlt

/-- An integer is written with at most as many characters as the digits and the sign that it was
read from. -/
theorem length_integer_signed_le {run : List Char} (hr : Run run) (negative : Bool) :
    (Writer.integer (signed negative run)).length ≤
      run.length + (if negative then 1 else 0) := by
  have hdigits := length_toDigits_natural_le hr
  rw [length_integer, signed]
  cases negative with
  | true =>
    rw [if_pos rfl, if_pos rfl, Int.natAbs_neg, Int.natAbs_natCast]
    split <;> omega
  | false =>
    rw [if_neg Bool.false_ne_true, if_neg Bool.false_ne_true, Int.natAbs_natCast,
      decide_eq_false (Int.not_lt.mpr (Int.natCast_nonneg _)), if_neg Bool.false_ne_true]
    omega

/-- An integer within the limit of the reader's digits stays within it when it is written. -/
theorem Grammar.Number.length_integer_le {limits : Limits} {value : Int} {cs : List Char}
    (h : Number limits (.integer value) cs) : (Writer.integer value).length ≤ limits.digits := by
  generalize hv : Value.integer value = v at h
  cases h with
  | notANumber => cases hv
  | infinity => cases hv
  | negativeInfinity => cases hv
  | @numeral negative whole fs es fraction exponent hw hi hf he =>
    have hsigned : value = signed negative whole := by
      unfold numberOf at hv
      split at hv
      · exact Value.integer.inj hv
      · cases hv
    have hlimit : whole.length + (if negative then 1 else 0) ≤ limits.digits := by
      rw [isIntegerPart, Bool.and_eq_true, decide_eq_true_eq] at hi
      exact hi.2
    rw [hsigned]
    exact Nat.le_trans (length_integer_signed_le hw negative) hlimit

/-- The value of every member of a spelled object is spelled. -/
theorem Grammar.Spells.of_mem_members {limits : Limits} {depth : Nat} {cs : List Char}
    {members : List (String × Value)} (h : Spells limits depth (.members members) cs)
    {member : String × Value} (hm : member ∈ members) :
    ∃ ds, Spells limits depth (.value member.2) ds := by
  generalize hp : Part.members members = part at h
  induction h generalizing members with
  | lastMember hn hv hb =>
    cases hp
    rw [List.mem_singleton] at hm
    subst hm
    exact ⟨_, hv⟩
  | member hn hv hb ha hr ihv ihr =>
    cases hp
    rcases List.mem_cons.mp hm with rfl | hrest
    · exact ⟨_, hv⟩
    · exact ihr hrest rfl
  | _ => cases hp

/-- No number is an array or an object. -/
theorem Grammar.Number.ne_nested {limits : Limits} {v : Value} {cs : List Char}
    (h : Number limits v cs) : (∀ items, v ≠ .array items) ∧ ∀ members, v ≠ .object members := by
  cases h with
  | notANumber => exact ⟨fun _ => Value.noConfusion, fun _ => Value.noConfusion⟩
  | infinity => exact ⟨fun _ => Value.noConfusion, fun _ => Value.noConfusion⟩
  | negativeInfinity => exact ⟨fun _ => Value.noConfusion, fun _ => Value.noConfusion⟩
  | numeral hw hi hf he =>
    unfold numberOf
    split
    · exact ⟨fun _ => Value.noConfusion, fun _ => Value.noConfusion⟩
    · exact ⟨fun _ => Value.noConfusion, fun _ => Value.noConfusion⟩

/-- The value of every member of a spelled document is spelled. -/
theorem Grammar.Spells.of_mem_object {limits : Limits} {depth : Nat} {cs : List Char}
    {members : List (String × Value)} (h : Spells limits depth (.value (.object members)) cs)
    {member : String × Value} (hm : member ∈ members) :
    ∃ depth ds, Spells limits depth (.value member.2) ds := by
  cases h with
  | number hn => exact absurd rfl (hn.ne_nested.2 members)
  | emptyObject hb => cases hm
  | object hb hs =>
    obtain ⟨ds, hv⟩ := hs.of_mem_members hm
    exact ⟨_, ds, hv⟩

/-- An integer that is a member of an object which is read from a text stays within the limit of
the reader's digits when it is written. -/
theorem length_integer_le_of_ofText? {limits : Limits} {text name : String} {value : Int}
    {members : List (String × Value)} (h : Value.ofText? limits text = some (.object members))
    (hm : (name, .integer value) ∈ members) :
    (Writer.integer value).length ≤ limits.digits := by
  obtain ⟨_, _, _, _, _, _, hs⟩ := Spells.of_ofChars? h
  obtain ⟨_, _, hv⟩ := hs.of_mem_object hm
  cases hv with
  | number hn => exact hn.length_integer_le

end AccessPolicy.Json
