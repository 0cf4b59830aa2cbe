import AccessPolicy.Proofs.Input.Identities
import AccessPolicy.Proofs.Policy.Checking

/-!
# Listing identities in another way

The identities of a binding can be listed in any order, repeatedly, and each by its text or as a
value. As long as the same identities are meant, the binding is the same, and so is the policy that
is described by such bindings, whether it is put together at once or in a builder.
-/

namespace AccessPolicy

/-- What it means that two lists are meant for the same identities. -/
structure SameIdentities (given other : List IdentityInput) : Prop where
  /-- Everything in one list means something exactly if everything in the other does. -/
  readable : (∀ input ∈ given, ∃ member, input.Means member) ↔
    ∀ input ∈ other, ∃ member, input.Means member
  /-- The same identities are meant, in whatever order, number and way. -/
  meant : ∀ member, (∃ input ∈ given, input.Means member) ↔ ∃ input ∈ other, input.Means member

/-- Lists that are meant for the same identities stand for the same set. -/
theorem SameIdentities.identitySet_eq_ok_iff {given other : List IdentityInput}
    (h : SameIdentities given other) {set : IdentitySet} :
    identitySet given = .ok set ↔ identitySet other = .ok set := by
  rw [AccessPolicy.identitySet_eq_ok_iff, AccessPolicy.identitySet_eq_ok_iff, h.readable]
  simp only [h.meant]

/-- Lists that stand for the same set are meant for the same identities. -/
theorem SameIdentities.of_identitySet_eq_ok {given other : List IdentityInput} {set : IdentitySet}
    (hgiven : identitySet given = .ok set) (hother : identitySet other = .ok set) :
    SameIdentities given other := by
  obtain ⟨hread, hset⟩ := AccessPolicy.identitySet_eq_ok_iff.mp hgiven
  obtain ⟨hread', hset'⟩ := AccessPolicy.identitySet_eq_ok_iff.mp hother
  exact ⟨iff_of_true hread hread', fun member => (hset member).symm.trans (hset' member)⟩

/-- What it means that an entry is given in another way: its identities are listed differently. -/
inductive BindingInput.Relists : BindingInput → BindingInput → Prop where
  /-- The entry is given as it was. -/
  | same (entry : BindingInput) : Relists entry entry
  /-- The identities of a binding are listed in another way. -/
  | identities {given other : List IdentityInput} (role : RoleInput)
      (condition : Option Condition) (same : SameIdentities given other) :
      Relists (.binding role (some given) condition) (.binding role (some other) condition)

/-- An entry that is given in another way is resolved to the same binding. -/
theorem BindingInput.Relists.resolve_eq_ok_iff {entry other : BindingInput}
    (h : entry.Relists other) {binding : Option Binding} :
    entry.resolve = .ok binding ↔ other.resolve = .ok binding := by
  cases h with
  | same => rfl
  | identities role condition same =>
    simp only [resolve, Binding.of, map_eq_ok_iff, same.identitySet_eq_ok_iff]

namespace PolicyInput

/-- A policy that is put together in a builder is the one that is put together at once. -/
theorem built_eq_constructed (input : PolicyInput)
    (sequence : Option (Option (List (Option Binding)))) :
    input.built sequence = input.constructed sequence := by
  obtain ⟨_, etag, version, _⟩ := input
  cases sequence with
  | none => cases etag <;> cases version <;> rfl
  | some entries =>
    cases hchecked : checkedBindings entries with
    | error defect =>
      simp only [built, constructed, Builder.setBindings, Policy.construct, hchecked,
        Option.getD_some]
      rfl
    | ok bindings =>
      obtain ⟨rfl, _⟩ := checkedBindings_eq_ok_iff.mp hchecked
      simp only [built, Builder.setBindings, hchecked]
      cases etag <;> cases version <;> rfl

/-- A policy that is described by entries is the same if they are given in another way. -/
theorem resolve_eq_ok_congr {entries others : List BindingInput}
    (h : List.Forall₂ BindingInput.Relists entries others) (etag : Option (Option String))
    (version : Option Int) (atOnce atOnce' : Bool) {policy : Policy} :
    resolve ⟨some (some entries), etag, version, atOnce⟩ = .ok policy ↔
      resolve ⟨some (some others), etag, version, atOnce'⟩ = .ok policy := by
  have hresolve (given : List BindingInput) (atOnce : Bool) :
      resolve ⟨some (some given), etag, version, atOnce⟩ = .ok policy ↔
        ∃ bindings, given.mapM BindingInput.resolve = .ok bindings ∧
          Policy.construct (some bindings) (etag.getD none) (version.getD 0) = .ok policy := by
    refine bind_eq_ok_iff.trans ?_
    simp only [mapError_eq_ok_iff, sequence, resolveEntries, map_eq_ok_iff, built_eq_constructed,
      ite_self, constructed]
    constructor
    · rintro ⟨_, ⟨_, ⟨bindings, hread, rfl⟩, rfl⟩, hpolicy⟩
      exact ⟨bindings, hread, hpolicy⟩
    · rintro ⟨bindings, hread, hpolicy⟩
      exact ⟨_, ⟨_, ⟨bindings, hread, rfl⟩, rfl⟩, hpolicy⟩
  rw [hresolve, hresolve]
  simp only [mapM_eq_ok_congr (h.imp fun _ _ hentry _ => hentry.resolve_eq_ok_iff)]

end PolicyInput

end AccessPolicy
