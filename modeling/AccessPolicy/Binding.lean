import AccessPolicy.Identity
import AccessPolicy.OrderedSet
import AccessPolicy.Role

/-!
# Bindings

A binding grants one role to a set of identities, under a condition if it has one. Bindings are
put together without any check, so the role, the identity set or one of its members may be
missing; `Binding.defect?` finds what is missing, and a binding without a defect is complete.
-/

namespace AccessPolicy

/-- When a binding applies. -/
structure Condition where
  /-- A short name. -/
  title : Option String := none
  /-- A longer explanation. -/
  description : Option String := none
  /-- The expression that decides. -/
  expression : Option String := none
  deriving DecidableEq, Repr

/-- A set of identities in which the absent identity may stand as well. -/
abbrev IdentitySet := OrderedSet (Option Identity)

/-- The order in which the members of identity sets come when a set is gone through. A set itself
has none, so any order is possible. -/
structure Listing where
  /-- The members of a set. -/
  list : IdentitySet → List (Option Identity)
  /-- Each member comes once, and nothing else does. -/
  perm : ∀ identities, (list identities).Perm identities.toList

/-- The members of every set by their own order. -/
def Listing.sorted : Listing := ⟨OrderedSet.toList, fun _ => .refl _⟩

/-- A grant of one role to a set of identities, possibly incomplete. -/
structure Binding where
  /-- The role that is granted. -/
  role : Option Role
  /-- Those to whom it is granted. -/
  identities : Option IdentitySet := some OrderedSet.empty
  /-- When the grant applies. -/
  condition : Option Condition := none
  deriving DecidableEq, Repr

/-- What can be missing in a sequence of bindings. -/
inductive Defect where
  /-- There is no sequence. -/
  | bindingsMissing
  /-- An entry is absent. -/
  | bindingMissing
  /-- A binding has no role, or a role without a name. -/
  | roleMissing
  /-- A binding has no identity set. -/
  | identitiesMissing
  /-- An identity set holds the absent identity. -/
  | identityMissing
  deriving DecidableEq, Repr

namespace Binding

/-- The name of the role, which every complete binding has. -/
def roleName? (binding : Binding) : Option String := binding.role.bind Role.name

/-- The name of the role, empty if there is none. -/
def roleName (binding : Binding) : String := binding.roleName?.getD ""

/-- The identities that are present, in order. -/
def members (binding : Binding) : List Identity :=
  match binding.identities with
  | none => []
  | some identities => identities.toList.filterMap id

/-- The identities that are present, as they come when the identity set is gone through. -/
def listed (listing : Listing) (binding : Binding) : List Identity :=
  match binding.identities with
  | none => []
  | some identities => (listing.list identities).filterMap id

/-- The same identities come in every order. -/
theorem listed_perm (listing : Listing) (binding : Binding) :
    (binding.listed listing).Perm binding.members := by
  rw [listed, members]
  cases binding.identities with
  | none => exact .refl _
  | some identities => exact (listing.perm identities).filterMap id

/-- The first thing that is missing in a binding: the role, then the identity set, then an
identity in it. -/
def defect? (binding : Binding) : Option Defect :=
  if binding.roleName? = none then some .roleMissing
  else match binding.identities with
    | none => some .identitiesMissing
    | some identities => if none ∈ identities then some .identityMissing else none

/-- Whether nothing is missing in a binding. -/
def IsComplete (binding : Binding) : Prop :=
  binding.roleName?.isSome ∧ ∃ identities ∈ binding.identities, none ∉ identities

/-- A binding has no defect exactly when it is complete. -/
theorem defect?_eq_none_iff {binding : Binding} : binding.defect? = none ↔ binding.IsComplete := by
  unfold defect? IsComplete
  cases binding.roleName? with
  | none => simp only [↓reduceIte, reduceCtorEq, Option.isSome_none, Bool.false_eq_true, false_and]
  | some name =>
    cases binding.identities with
    | none => simp only [reduceCtorEq, ↓reduceIte, Option.isSome_some, Option.mem_def, false_and,
        exists_false, and_false]
    | some identities =>
      simp only [reduceCtorEq, ↓reduceIte, ite_eq_right_iff, imp_false, Option.isSome_some,
        Option.mem_def, Option.some.injEq, exists_eq_left', true_and]

instance (binding : Binding) : Decidable binding.IsComplete :=
  decidable_of_iff _ defect?_eq_none_iff

end Binding

/-- The first defect of an entry in a sequence of bindings. -/
def entryDefect? : Option Binding → Option Defect
  | none => some .bindingMissing
  | some binding => binding.defect?

/-- The bindings of a sequence without a defect; otherwise the defect of the first entry that has
one. -/
def completeBindings : List (Option Binding) → Except Defect (List Binding)
  | [] => .ok []
  | none :: _ => .error .bindingMissing
  | some binding :: rest =>
    match binding.defect? with
    | some defect => .error defect
    | none => (completeBindings rest).map (binding :: ·)

/-- The bindings of a sequence that may itself be absent. -/
def checkedBindings : Option (List (Option Binding)) → Except Defect (List Binding)
  | none => .error .bindingsMissing
  | some entries => completeBindings entries

/-- A sequence of complete bindings passes unchanged. -/
theorem completeBindings_of_complete {bindings : List Binding}
    (hc : ∀ binding ∈ bindings, binding.IsComplete) :
    completeBindings (bindings.map some) = .ok bindings := by
  induction bindings with
  | nil => rfl
  | cons binding rest ih =>
    rw [List.forall_mem_cons] at hc
    simp only [List.map_cons, completeBindings, Binding.defect?_eq_none_iff.2 hc.1,
      ih hc.2, Except.map]

/-- What passes is the sequence itself, and all of it is complete. -/
theorem of_completeBindings_eq_ok {entries : List (Option Binding)} {bindings : List Binding}
    (h : completeBindings entries = .ok bindings) :
    entries = bindings.map some ∧ ∀ binding ∈ bindings, binding.IsComplete := by
  induction entries generalizing bindings with
  | nil =>
    cases h
    exact ⟨rfl, fun _ h => absurd h List.not_mem_nil⟩
  | cons entry rest ih =>
    cases entry with
    | none => cases h
    | some binding =>
      simp only [completeBindings] at h
      split at h
      · cases h
      · rename_i hsound
        cases hrest : completeBindings rest with
        | error defect => simp only [hrest, Except.map, reduceCtorEq] at h
        | ok others =>
          simp only [hrest, Except.map, Except.ok.injEq] at h
          subst h
          obtain ⟨rfl, hall⟩ := ih hrest
          exact ⟨rfl, List.forall_mem_cons.2 ⟨Binding.defect?_eq_none_iff.1 hsound, hall⟩⟩

end AccessPolicy
