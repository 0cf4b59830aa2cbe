import AccessPolicy.Wire.Detail
import Mathlib.Data.List.Forall2
import Mathlib.Data.List.Perm.Basic

/-!
# Shuffled details

Details are shuffled when those on undeclared members of the same object are permuted among
themselves and all others stay where they are. Outcomes are alike when they are the same value or
report shuffled details. Every way of putting checks together keeps outcomes alike.
-/

namespace AccessPolicy.Wire

/-! ## Details -/

/-- Whether details are the same or report undeclared members of the same object. -/
inductive Detail.Exchangeable : Detail → Detail → Prop where
  | same (detail : Detail) : Exchangeable detail detail
  | undeclared (path : List Step) (name other : String) :
      Exchangeable ⟨.extraForbidden, path ++ [.key name]⟩ ⟨.extraForbidden, path ++ [.key other]⟩

namespace Detail.Exchangeable

variable {first second third : Detail}

/-- What can be exchanged for something can be exchanged for what that can be exchanged for. -/
theorem trans (h : Exchangeable first second) (hnext : Exchangeable second third) :
    Exchangeable first third := by
  cases h with
  | same => exact hnext
  | undeclared path name other =>
    generalize hmiddle : (⟨.extraForbidden, path ++ [.key other]⟩ : Detail) = middle at hnext
    cases hnext with
    | same =>
      rw [← hmiddle]
      exact .undeclared path name other
    | undeclared path' other' last =>
      have hpath := List.append_singleton_inj.mp (congrArg Detail.path hmiddle)
      rw [← hpath.1]
      exact .undeclared path name last

/-- Details can be exchanged as seen from one level higher up. -/
theorem under (h : Exchangeable first second) (step : Step) :
    Exchangeable (first.under step) (second.under step) := by
  cases h with
  | same => exact .same _
  | undeclared path name other => exact .undeclared (step :: path) name other

end Detail.Exchangeable

/-- Whether details are permuted only where they report undeclared members of the same object. -/
structure Shuffled (details details' : List Detail) : Prop where
  /-- The details are the same but for their order. -/
  perm : details.Perm details'
  /-- Each stands where one stood that it can be exchanged for. -/
  exchangeable : List.Forall₂ Detail.Exchangeable details details'

namespace Shuffled

variable {details details' more more' : List Detail}

/-- Details are shuffled if nothing is permuted. -/
theorem refl (details : List Detail) : Shuffled details details :=
  ⟨.refl details, List.forall₂_same.mpr fun detail _ => .same detail⟩

/-- Details that can be exchanged one by one, and again, can be exchanged one by one. -/
private theorem forall₂_trans (h : List.Forall₂ Detail.Exchangeable details details')
    (hnext : List.Forall₂ Detail.Exchangeable details' more) :
    List.Forall₂ Detail.Exchangeable details more := by
  induction h generalizing more with
  | nil => exact hnext
  | cons hdetail _ ih =>
    cases hnext with
    | cons hother hnext => exact .cons (hdetail.trans hother) (ih hnext)

/-- Details that are shuffled twice are shuffled. -/
theorem trans (h : Shuffled details details') (hnext : Shuffled details' more) :
    Shuffled details more :=
  ⟨h.perm.trans hnext.perm, forall₂_trans h.exchangeable hnext.exchangeable⟩

/-- Details with others behind them are shuffled if both are. -/
theorem append (h : Shuffled details details') (hmore : Shuffled more more') :
    Shuffled (details ++ more) (details' ++ more') :=
  ⟨h.perm.append hmore.perm, List.rel_append h.exchangeable hmore.exchangeable⟩

/-- Details are shuffled as seen from one level higher up. -/
theorem under (h : Shuffled details details') (step : Step) :
    Shuffled (details.map (Detail.under step)) (details'.map (Detail.under step)) := by
  refine ⟨h.perm.map _, ?_⟩
  rw [List.forall₂_map_left_iff, List.forall₂_map_right_iff]
  exact h.exchangeable.imp fun _ _ hdetail => hdetail.under step

/-- Details on undeclared members of one object may come in any order. -/
theorem undeclared (path : List Step) {names names' : List String} (h : names.Perm names') :
    Shuffled (names.map fun name => ⟨.extraForbidden, path ++ [.key name]⟩)
      (names'.map fun name => ⟨.extraForbidden, path ++ [.key name]⟩) := by
  refine ⟨h.map _, ?_⟩
  rw [List.forall₂_map_left_iff, List.forall₂_map_right_iff, List.forall₂_iff_zip]
  exact ⟨h.length_eq, fun _ => .undeclared path _ _⟩

/-- Only no details are no details when they are shuffled. -/
theorem eq_nil_iff (h : Shuffled details details') : details = [] ↔ details' = [] := by
  rw [← List.length_eq_zero_iff, h.perm.length_eq, List.length_eq_zero_iff]

end Shuffled

/-! ## Outcomes -/

/-- Whether outcomes are the same value or report shuffled details. -/
inductive Checked.Alike {α : Type} : Checked α → Checked α → Prop where
  | value (value : α) : Alike (.ok value) (.ok value)
  | details {details details' : List Detail} (h : Shuffled details details') :
      Alike (.error details) (.error details')

namespace Checked.Alike

variable {α β : Type} {first first' last : Checked α} {second second' : Checked β}

/-- An outcome is like itself. -/
theorem refl (first : Checked α) : Alike first first := by
  cases first with
  | ok value => exact .value value
  | error details => exact .details (.refl details)

/-- An outcome is like what one like it is like. -/
theorem trans (h : Alike first first') (hnext : Alike first' last) : Alike first last := by
  cases h with
  | value => exact hnext
  | details h =>
    cases hnext with
    | details hnext => exact .details (h.trans hnext)

/-- Outcomes together are alike if both are. -/
theorem both (h : Alike first first') (hsecond : Alike second second') :
    Alike (first.both second) (first'.both second') := by
  cases h with
  | value value =>
    cases hsecond with
    | value other => exact .value (value, other)
    | details hsecond => exact .details hsecond
  | details h =>
    cases hsecond with
    | value _ => exact .details h
    | details hsecond => exact .details (h.append hsecond)

/-- What is made of outcomes is alike along with them. -/
theorem map (h : Alike first first') (f : α → β) : Alike (first.map f) (first'.map f) := by
  cases h with
  | value value => exact .value (f value)
  | details h => exact .details h

/-- Outcomes are alike as seen from one level higher up. -/
theorem under (h : Alike first first') (step : Step) :
    Alike (first.under step) (first'.under step) := by
  cases h with
  | value value => exact .value value
  | details h => exact .details (h.under step)

/-- Outcomes for all items are alike if those for each are. -/
theorem items {check : α → Checked β} {values values' : List α}
    (h : List.Forall₂ (fun value value' => Alike (check value) (check value')) values values')
    (index : Nat) :
    Alike (Checked.items check index values) (Checked.items check index values') := by
  induction h generalizing index with
  | nil => exact .value []
  | cons hitem _ ih => exact ((hitem.under (.index index)).both (ih (index + 1))).map _

end Checked.Alike

end AccessPolicy.Wire
