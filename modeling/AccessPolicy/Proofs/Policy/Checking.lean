import AccessPolicy.Policy
import AccessPolicy.Proofs.Outcome

/-!
# What passes the check

A sequence of bindings passes the check exactly when it is there and consists of complete bindings,
and then it passes unchanged. Otherwise the check fails at the first entry with a defect. Policies
and builders are made from what passes, so both hold complete bindings only, and a complete policy
is put together from its own parts.
-/

namespace AccessPolicy

/-- What passes the check is a sequence of complete bindings, entry by entry the same. -/
theorem checkedBindings_eq_ok_iff {entries : Option (List (Option Binding))}
    {bindings : List Binding} :
    checkedBindings entries = .ok bindings ↔
      entries = some (bindings.map some) ∧ ∀ binding ∈ bindings, binding.IsComplete := by
  cases entries with
  | none =>
    constructor
    · intro h
      cases h
    · rintro ⟨h, _⟩
      cases h
  | some entries =>
    rw [checkedBindings, Option.some.injEq]
    constructor
    · exact of_completeBindings_eq_ok
    · rintro ⟨rfl, hc⟩
      exact completeBindings_of_complete hc

/-- Entries without a defect are complete bindings. -/
theorem entryDefect?_eq_none_iff {entries : List (Option Binding)} :
    (∀ entry ∈ entries, entryDefect? entry = none) ↔
      ∃ bindings : List Binding, entries = bindings.map some ∧
        ∀ binding ∈ bindings, binding.IsComplete := by
  constructor
  · intro h
    induction entries with
    | nil => exact ⟨[], rfl, fun _ hm => absurd hm List.not_mem_nil⟩
    | cons entry rest ih =>
      rw [List.forall_mem_cons] at h
      obtain ⟨bindings, rfl, hb⟩ := ih h.2
      cases entry with
      | none => cases h.1
      | some binding =>
        exact ⟨binding :: bindings, rfl,
          List.forall_mem_cons.mpr ⟨Binding.defect?_eq_none_iff.mp h.1, hb⟩⟩
  · rintro ⟨bindings, rfl, hb⟩ entry hm
    obtain ⟨binding, hb', rfl⟩ := List.mem_map.mp hm
    exact Binding.defect?_eq_none_iff.mpr (hb binding hb')

/-- The check of a sequence goes on after entries without a defect. -/
theorem completeBindings_cons (entry : Option Binding) (rest : List (Option Binding)) :
    completeBindings (entry :: rest) =
      match entryDefect? entry with
      | some defect => .error defect
      | none => (completeBindings rest).map (entry.toList ++ ·) := by
  cases entry with
  | none => rfl
  | some binding => rfl

/-- The check fails with the defect that is found in the first entry that has one. -/
theorem completeBindings_eq_error_iff {entries : List (Option Binding)} {defect : Defect} :
    completeBindings entries = .error defect ↔
      ∃ before entry after, entries = before ++ entry :: after ∧
        (∀ earlier ∈ before, entryDefect? earlier = none) ∧ entryDefect? entry = some defect := by
  induction entries with
  | nil =>
    constructor
    · intro h
      cases h
    · rintro ⟨before, _, _, h, _⟩
      cases before <;> cases h
  | cons entry rest ih =>
    rw [completeBindings_cons]
    cases hentry : entryDefect? entry with
    | some found =>
      constructor
      · rintro ⟨⟩
        exact ⟨[], entry, rest, rfl, fun _ hm => absurd hm List.not_mem_nil, hentry⟩
      · rintro ⟨before, first, after, hsplit, hbefore, hfirst⟩
        cases before with
        | nil =>
          cases hsplit
          rw [hentry] at hfirst
          rw [Option.some.inj hfirst]
        | cons earlier others =>
          cases hsplit
          rw [hbefore entry List.mem_cons_self] at hentry
          cases hentry
    | none =>
      rw [map_eq_error_iff, ih]
      constructor
      · rintro ⟨before, first, after, rfl, hbefore, hfirst⟩
        exact ⟨entry :: before, first, after, rfl, List.forall_mem_cons.mpr ⟨hentry, hbefore⟩,
          hfirst⟩
      · rintro ⟨before, first, after, hsplit, hbefore, hfirst⟩
        cases before with
        | nil =>
          cases hsplit
          rw [hentry] at hfirst
          cases hfirst
        | cons earlier others =>
          cases hsplit
          exact ⟨others, first, after, rfl, (List.forall_mem_cons.mp hbefore).2, hfirst⟩

/-- A defect of bindings is the defect of one of them. -/
theorem exists_defect_of_completeBindings_eq_error {bindings : List Binding} {defect : Defect}
    (h : completeBindings (bindings.map some) = .error defect) :
    ∃ binding ∈ bindings, binding.defect? = some defect := by
  obtain ⟨before, entry, after, hsplit, _, hentry⟩ := completeBindings_eq_error_iff.mp h
  have hm : entry ∈ bindings.map some := hsplit ▸ List.mem_append_right before List.mem_cons_self
  obtain ⟨binding, hb, rfl⟩ := List.mem_map.mp hm
  exact ⟨binding, hb, hentry⟩

/-- A policy is put together from its own bindings, etag and version, and only if it is complete. -/
theorem Policy.construct_eq_ok_iff {entries : Option (List (Option Binding))}
    {etag : Option String} {version : Int} {policy : Policy} :
    Policy.construct entries etag version = .ok policy ↔
      entries = some (policy.bindings.map some) ∧ policy.IsComplete ∧
        policy.etag = etag ∧ policy.version = version := by
  rw [Policy.construct, map_eq_ok_iff]
  constructor
  · rintro ⟨bindings, hb, rfl⟩
    obtain ⟨he, hc⟩ := checkedBindings_eq_ok_iff.mp hb
    exact ⟨he, hc, rfl, rfl⟩
  · rintro ⟨he, hc, rfl, rfl⟩
    exact ⟨policy.bindings, checkedBindings_eq_ok_iff.mpr ⟨he, hc⟩, rfl⟩

/-- Staging bindings succeeds exactly for a sequence of complete bindings, which it stages. -/
theorem Builder.setBindings_eq_ok_iff {builder next : Builder}
    {entries : Option (List (Option Binding))} :
    builder.setBindings entries = .ok next ↔
      entries = some (next.bindings.map some) ∧ next.IsComplete ∧
        next.etag = builder.etag ∧ next.version = builder.version := by
  rw [Builder.setBindings, map_eq_ok_iff]
  constructor
  · rintro ⟨bindings, hb, rfl⟩
    obtain ⟨he, hc⟩ := checkedBindings_eq_ok_iff.mp hb
    exact ⟨he, hc, rfl, rfl⟩
  · rintro ⟨he, hc, het, hv⟩
    exact ⟨next.bindings, checkedBindings_eq_ok_iff.mpr ⟨he, hc⟩, by rw [← het, ← hv]⟩

/-- A builder is built exactly when what it holds is complete, and then as what it holds. -/
theorem Builder.build_eq_ok_iff {builder : Builder} {policy : Policy} :
    builder.build = .ok policy ↔
      builder.IsComplete ∧ policy = ⟨builder.bindings, builder.etag, builder.version⟩ := by
  constructor
  · intro h
    obtain ⟨he, hc, het, hv⟩ := Policy.construct_eq_ok_iff.mp h
    have hb : builder.bindings = policy.bindings :=
      List.map_injective_iff.mpr (fun _ _ => Option.some.inj) (Option.some.inj he)
    refine ⟨by rw [IsComplete, hb]; exact hc, ?_⟩
    rw [hb, ← het, ← hv]
  · rintro ⟨hc, rfl⟩
    exact build_of_complete hc

end AccessPolicy
