import Mathlib.Data.List.Infix
import Mathlib.Data.String.Basic

/-!
# Delimited texts

Values are written in a delimited way if the text of a value shows by itself where it ends: in
whatever text it stands in front, the value and what follows can be told. So different values have
different texts, and none of these texts is the beginning of another one.
-/

namespace AccessPolicy.Text

variable {α : Type}

/-- What it means that values are written in a delimited way. -/
def IsDelimited (write : α → String) : Prop :=
  ∀ a b rest rest', write a ++ rest = write b ++ rest' → a = b ∧ rest = rest'

/-- Different values have different texts. -/
theorem IsDelimited.injective {write : α → String} (h : IsDelimited write) :
    Function.Injective write :=
  fun a b he => (h a b "" "" (congrArg (· ++ "") he)).1

/-- Texts none of which is the beginning of another one are delimited. -/
theorem isDelimited_of_prefix {write : α → String}
    (h : ∀ a b, (write a).toList <+: (write b).toList → a = b) : IsDelimited write := by
  intro a b rest rest' he
  have hchars := congrArg String.toList he
  rw [String.toList_append, String.toList_append] at hchars
  have hprefix : (write a).toList <+: (write b).toList ++ rest'.toList := ⟨_, hchars⟩
  obtain rfl : a = b := by
    rcases List.prefix_or_prefix_of_prefix hprefix (List.prefix_append ..) with hp | hp
    · exact h a b hp
    · exact (h b a hp).symm
  exact ⟨rfl, (String.append_right_inj _).mp he⟩

/-- Texts that begin with different characters are different, whatever follows. -/
theorem append_ne_append {s t : String} {c d : Char} (hs : s.toList.head? = some c)
    (ht : t.toList.head? = some d) (h : c ≠ d) (rest rest' : String) : s ++ rest ≠ t ++ rest' := by
  intro he
  have hchars := congrArg (List.head? ∘ String.toList) he
  simp only [Function.comp_apply, String.toList_append, List.head?_append, hs, ht,
    Option.some_or, Option.some.injEq] at hchars
  exact h hchars

end AccessPolicy.Text
