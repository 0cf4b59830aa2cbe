import AccessPolicy.Text.Blank
import Mathlib.Data.List.TakeWhile

/-!
# Texts with blanks around them

Trimming takes away blanks at both ends and nothing else. So characters that are not blank are what
is left of a text exactly if the text is these with blanks around them.
-/

namespace AccessPolicy.Text

variable {cs text : List Char}

/-- Whether a text is given characters with blanks around them. -/
def IsAround (cs text : List Char) : Prop :=
  ∃ before after, (∀ c ∈ before, isBlank c = true) ∧ (∀ c ∈ after, isBlank c = true) ∧
    text = before ++ (cs ++ after)

/-- Characters have no blanks around themselves. -/
theorem isAround_self (cs : List Char) : IsAround cs cs :=
  ⟨[], [], List.forall_mem_nil _, List.forall_mem_nil _, (List.append_nil cs).symm⟩

/-- Blanks in front of characters that are not blank are dropped. -/
private theorem dropWhile_isBlank_append {blanks : List Char}
    (hblanks : ∀ c ∈ blanks, isBlank c = true) (hcs : ∀ c ∈ cs, isBlank c = false) :
    (blanks ++ cs).dropWhile isBlank = cs := by
  rw [List.dropWhile_append_of_pos hblanks]
  cases cs with
  | nil => rfl
  | cons c cs =>
    have hc : ¬isBlank c = true := Bool.eq_false_iff.mp (hcs c List.mem_cons_self)
    exact List.dropWhile_cons_of_neg hc

/-- Every text has blanks around what is left of it. -/
theorem isAround_trim (text : List Char) : IsAround (trim text) text := by
  have hback := List.takeWhile_append_dropWhile (p := isBlank)
    (l := (text.dropWhile isBlank).reverse)
  refine ⟨text.takeWhile isBlank, ((text.dropWhile isBlank).reverse.takeWhile isBlank).reverse,
    fun c => List.mem_takeWhile_imp, ?_, ?_⟩
  · intro c hc
    exact List.mem_takeWhile_imp (List.mem_reverse.mp hc)
  · rw [trim, ← List.reverse_append, hback, List.reverse_reverse,
      List.takeWhile_append_dropWhile]

/-- What is left of a text are the characters, none of them blank, that it has blanks around. -/
theorem isAround_iff_trim (hcs : ∀ c ∈ cs, isBlank c = false) :
    IsAround cs text ↔ trim text = cs := by
  constructor
  · rintro ⟨before, after, hb, ha, rfl⟩
    have hreverse : ∀ c ∈ cs.reverse, isBlank c = false :=
      fun c hc => hcs c (List.mem_reverse.mp hc)
    have hafter : ∀ c ∈ after.reverse, isBlank c = true := fun c hc => ha c (List.mem_reverse.mp hc)
    rw [trim, List.dropWhile_append_of_pos hb]
    cases cs with
    | nil =>
      have hnil : after.dropWhile isBlank = [] := List.dropWhile_eq_nil_iff.mpr ha
      rw [List.nil_append, hnil]
      rfl
    | cons c cs =>
      have hc : ¬isBlank c = true := Bool.eq_false_iff.mp (hcs c List.mem_cons_self)
      rw [List.cons_append, List.dropWhile_cons_of_neg hc, ← List.cons_append, List.reverse_append,
        dropWhile_isBlank_append hafter hreverse, List.reverse_reverse]
  · rintro rfl
    exact isAround_trim text

/-- A text has blanks around some characters, of a kind that none is blank, exactly if what is left
of it is of the kind. -/
theorem exists_isAround_iff {Kind : List Char → Prop}
    (h : ∀ cs, Kind cs → ∀ c ∈ cs, isBlank c = false) :
    (∃ cs, IsAround cs text ∧ Kind cs) ↔ Kind (trim text) := by
  constructor
  · rintro ⟨cs, haround, hcs⟩
    rwa [(isAround_iff_trim (h cs hcs)).mp haround]
  · intro hcs
    exact ⟨trim text, isAround_trim text, hcs⟩

/-- What is left of a text is part of it. -/
theorem trim_sublist (text : List Char) : (trim text).Sublist text := by
  obtain ⟨before, after, _, _, h⟩ := isAround_trim text
  have hinner : (trim text).Sublist (before ++ (trim text ++ after)) :=
    (List.sublist_append_left _ after).trans (List.sublist_append_right before _)
  rwa [← h] at hinner

end AccessPolicy.Text
