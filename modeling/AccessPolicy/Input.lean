import AccessPolicy.Fault
import AccessPolicy.Policy

/-!
# Input

Callers name identities, roles, bindings and policies in several ways. Each way is a form of
input, and resolving an input gives the value that is meant. Identity texts are read on the way,
and of several unreadable ones the first is reported.
-/

namespace AccessPolicy

/-- An identity as a caller gives it: by its text, as a value, or not at all. -/
inductive IdentityInput where
  | text (text : String)
  | value (identity : Identity)
  | absent
  deriving DecidableEq, Repr

/-- The identity that a caller means. -/
def IdentityInput.resolve : IdentityInput → Except Identity.Unreadable (Option Identity)
  | .text shown => (Identity.ofText shown).map some
  | .value identity => .ok (some identity)
  | .absent => .ok none

/-- A role as a caller gives it: by its name, to be completed, or as it is. -/
inductive RoleInput where
  | name (name : String)
  | value (role : Option Role)
  deriving DecidableEq, Repr

/-- The role that a caller means. -/
def RoleInput.resolve : RoleInput → Option Role
  | .name short => some (Role.ofName short)
  | .value given => given

/-- The set of the identities that a caller lists; the first unreadable text in the list decides
the report. -/
def identitySet (identities : List IdentityInput) : Except Identity.Unreadable IdentitySet :=
  (identities.mapM IdentityInput.resolve).map OrderedSet.ofList

/-- The binding of a role to the listed identities. -/
def Binding.of (role : RoleInput) (identities : List IdentityInput)
    (condition : Option Condition := none) : Except Identity.Unreadable Binding :=
  (identitySet identities).map fun identities => ⟨role.resolve, some identities, condition⟩

/-- An entry of a sequence of bindings as a caller gives it. -/
inductive BindingInput where
  | absent
  | binding (role : RoleInput) (identities : Option (List IdentityInput))
      (condition : Option Condition)
  deriving DecidableEq, Repr

/-- The entry that a caller means. -/
def BindingInput.resolve : BindingInput → Except Identity.Unreadable (Option Binding)
  | .absent => .ok none
  | .binding role none condition => .ok (some ⟨role.resolve, none, condition⟩)
  | .binding role (some identities) condition => (Binding.of role identities condition).map some

/-- The sequence of bindings that a caller means, which may be absent. -/
def resolveEntries : Option (List BindingInput) →
    Except Identity.Unreadable (Option (List (Option Binding)))
  | none => .ok none
  | some entries => (entries.mapM BindingInput.resolve).map some

/-- A policy as a caller describes it; a part that is not mentioned keeps its default. -/
structure PolicyInput where
  /-- The bindings, if they are mentioned. -/
  bindings : Option (Option (List BindingInput)) := none
  /-- The etag, if it is mentioned. -/
  etag : Option (Option String) := none
  /-- The version, if it is mentioned. -/
  version : Option Int := none
  /-- Whether the policy is put together at once and not in a builder. -/
  atOnce : Bool := false
  deriving DecidableEq, Repr

namespace PolicyInput

/-- The sequence of bindings that a caller means, if it is mentioned. -/
def sequence (input : PolicyInput) :
    Except Identity.Unreadable (Option (Option (List (Option Binding)))) :=
  match input.bindings with
  | none => .ok none
  | some entries => (resolveEntries entries).map some

/-- The policy of a sequence of bindings, put together at once. -/
def constructed (input : PolicyInput) (sequence : Option (Option (List (Option Binding)))) :
    Except Defect Policy :=
  Policy.construct (sequence.getD (some [])) (input.etag.getD none) (input.version.getD 0)

/-- The policy of a sequence of bindings, put together in a builder. -/
def built (input : PolicyInput) (sequence : Option (Option (List (Option Binding)))) :
    Except Defect Policy := do
  let builder ← match sequence with
    | none => .ok ({} : Builder)
    | some entries => Builder.setBindings {} entries
  let builder := match input.etag with
    | none => builder
    | some etag => builder.setEtag etag
  let builder := match input.version with
    | none => builder
    | some version => builder.setVersion version
  builder.build

/-- The policy that a caller describes. -/
def resolve (input : PolicyInput) : Except Fault Policy := do
  let sequence ← input.sequence.mapError .unreadable
  (if input.atOnce then input.constructed sequence else input.built sequence).mapError .defect

end PolicyInput

end AccessPolicy
