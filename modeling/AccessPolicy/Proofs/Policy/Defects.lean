import AccessPolicy.Proofs.Policy.Checking

/-!
# Which defect decides

Several entries of a sequence of bindings can have defects, and one entry can have several of them.
The check fails with one defect: the first entry that has any decides, and of its defects the one
that comes first in a fixed order.
-/

namespace AccessPolicy

/-- The defects that an entry can have, in the order in which they count. -/
def Defect.order : List Defect :=
  [.bindingMissing, .roleMissing, .identitiesMissing, .identityMissing]

/-- Whether an entry of a sequence has a defect, whatever others it has. -/
def Defect.IsIn (entry : Option Binding) : Defect → Prop
  | .bindingsMissing => False
  | .bindingMissing => entry = none
  | .roleMissing => ∃ binding ∈ entry, binding.role = none ∨ ∃ role ∈ binding.role, role.name = none
  | .identitiesMissing => ∃ binding ∈ entry, binding.identities = none
  | .identityMissing => ∃ binding ∈ entry, ∃ identities ∈ binding.identities, none ∈ identities

instance (entry : Option Binding) (defect : Defect) : Decidable (defect.IsIn entry) := by
  cases defect <;> unfold Defect.IsIn <;> infer_instance

/-- Whether an entry has any defect. -/
def IsDefective (entry : Option Binding) : Prop := ∃ defect : Defect, defect.IsIn entry

/-- Which defect decides about a sequence of bindings that may itself be absent. -/
inductive Decides : Option (List (Option Binding)) → Defect → Prop
  /-- There is no sequence. -/
  | absent : Decides none .bindingsMissing
  /-- The entries before an entry have no defect, and this one has, possibly among others. -/
  | entry {before : List (Option Binding)} {entry : Option Binding} {defect : Defect}
      (sound : ∀ earlier ∈ before, ¬IsDefective earlier)
      (first : Defect.order.find? (fun defect => defect.IsIn entry) = some defect)
      (after : List (Option Binding)) : Decides (some (before ++ entry :: after)) defect

variable {entry : Option Binding} {defect : Defect} {given : Option (List (Option Binding))}

/-- A binding has no role, or one without a name, exactly if it has no name of a role. -/
theorem roleMissing_isIn_iff {binding : Binding} :
    Defect.roleMissing.IsIn (some binding) ↔ binding.roleName? = none := by
  simp only [Defect.IsIn, Option.mem_def, Option.some.injEq, exists_eq_left', Binding.roleName?]
  cases binding.role with
  | none => simp only [true_or, Option.bind_none]
  | some role => simp only [reduceCtorEq, false_or, Option.some.injEq, exists_eq_left',
      Option.bind_some]

/-- The defect that is found in an entry is the first one in the order. -/
theorem entryDefect?_eq_find? (entry : Option Binding) :
    entryDefect? entry = Defect.order.find? fun defect => defect.IsIn entry := by
  cases entry with
  | none => rfl
  | some binding =>
    have hpresent : ¬Defect.bindingMissing.IsIn (some binding) := Option.some_ne_none binding
    have hidentities : Defect.identitiesMissing.IsIn (some binding) ↔ binding.identities = none := by
      simp only [Defect.IsIn, Option.mem_def, Option.some.injEq, exists_eq_left']
    have hidentity : Defect.identityMissing.IsIn (some binding) ↔
        ∃ identities ∈ binding.identities, none ∈ identities := by
      simp only [Defect.IsIn, Option.mem_def, Option.some.injEq, exists_eq_left']
    simp only [entryDefect?, Binding.defect?, Defect.order, List.find?_cons, List.find?_nil,
      hpresent, roleMissing_isIn_iff, hidentities, hidentity, decide_false]
    by_cases hrole : binding.roleName? = none
    · simp only [hrole, if_true, decide_true]
    · cases binding.identities with
      | none => simp only [hrole, if_false, decide_false, decide_true]
      | some identities =>
        by_cases hm : none ∈ identities <;> simp [hrole, hm]

/-- The defects that an entry can have are all in the order. -/
theorem Defect.IsIn.mem_order (h : defect.IsIn entry) : defect ∈ Defect.order := by
  cases defect with
  | bindingsMissing => exact h.elim
  | _ => decide

/-- An entry has no defect exactly if none is found in it. -/
theorem not_isDefective_iff : ¬IsDefective entry ↔ entryDefect? entry = none := by
  rw [entryDefect?_eq_find?, List.find?_eq_none]
  constructor
  · intro h defect _ hd
    exact h ⟨defect, of_decide_eq_true hd⟩
  · rintro h ⟨defect, hd⟩
    exact h defect hd.mem_order (decide_eq_true hd)

/-- The check fails with a defect exactly if this is the defect that decides. -/
theorem checkedBindings_eq_error_iff :
    checkedBindings given = .error defect ↔ Decides given defect := by
  constructor
  · intro h
    cases given with
    | none =>
      cases h
      exact .absent
    | some entries =>
      obtain ⟨before, entry, after, rfl, hbefore, hentry⟩ := completeBindings_eq_error_iff.mp h
      rw [entryDefect?_eq_find?] at hentry
      exact .entry (fun earlier hm => not_isDefective_iff.mpr (hbefore earlier hm)) hentry after
  · intro h
    cases h with
    | absent => rfl
    | entry sound first after =>
      rw [← entryDefect?_eq_find?] at first
      exact completeBindings_eq_error_iff.mpr
        ⟨_, _, after, rfl, fun earlier hm => not_isDefective_iff.mp (sound earlier hm), first⟩

/-- Some defect decides exactly if there is no sequence or an entry with a defect. -/
theorem exists_decides_iff :
    (∃ defect, Decides given defect) ↔
      given = none ∨ ∃ entries ∈ given, ∃ entry ∈ entries, IsDefective entry := by
  constructor
  · rintro ⟨defect, h⟩
    cases h with
    | absent => exact .inl rfl
    | @entry before entry _ sound first after =>
      have hin := List.find?_some first
      refine .inr ⟨_, rfl, entry, List.mem_append_right before List.mem_cons_self, ?_⟩
      exact ⟨defect, of_decide_eq_true hin⟩
  · rintro (rfl | ⟨entries, hentries, entry, hm, hdefective⟩)
    · exact ⟨_, .absent⟩
    · cases hchecked : checkedBindings given with
      | error defect => exact ⟨defect, checkedBindings_eq_error_iff.mp hchecked⟩
      | ok bindings =>
        obtain ⟨rfl, hcomplete⟩ := checkedBindings_eq_ok_iff.mp hchecked
        cases hentries
        have hfound := entryDefect?_eq_none_iff.mpr ⟨bindings, rfl, hcomplete⟩ entry hm
        exact absurd hdefective (not_isDefective_iff.mpr hfound)

end AccessPolicy
