import AccessPolicy.Binding

/-!
# Policies

A policy is an immutable list of complete bindings with an etag and a version. It is put together
at once, or step by step in a builder. Both ways refuse an incomplete sequence of bindings, and a
builder that refuses one is left as it was.
-/

namespace AccessPolicy

/-- A versioned list of bindings with the etag that guards its next update. -/
structure Policy where
  /-- The grants, in order. -/
  bindings : List Binding := []
  /-- The token of the stored policy that an update replaces. -/
  etag : Option String := none
  /-- The version of the policy's schema. -/
  version : Int := 0
  deriving DecidableEq, Repr

namespace Policy

/-- Whether every binding of a policy is complete. -/
def IsComplete (policy : Policy) : Prop := ∀ binding ∈ policy.bindings, binding.IsComplete

instance (policy : Policy) : Decidable policy.IsComplete :=
  inferInstanceAs (Decidable (∀ binding ∈ policy.bindings, binding.IsComplete))

/-- The policy of a sequence of bindings, an etag and a version. -/
def construct (bindings : Option (List (Option Binding)) := some []) (etag : Option String := none)
    (version : Int := 0) : Except Defect Policy :=
  (checkedBindings bindings).map fun bindings => ⟨bindings, etag, version⟩

end Policy

/-- A policy in the making. -/
structure Builder where
  /-- The grants so far. -/
  bindings : List Binding := []
  /-- The etag so far. -/
  etag : Option String := none
  /-- The version so far. -/
  version : Int := 0
  deriving DecidableEq, Repr

namespace Builder

/-- Whether every staged binding is complete. -/
def IsComplete (builder : Builder) : Prop := ∀ binding ∈ builder.bindings, binding.IsComplete

/-- Replaces the staged bindings. -/
def setBindings (builder : Builder) (bindings : Option (List (Option Binding))) :
    Except Defect Builder :=
  (checkedBindings bindings).map fun bindings => { builder with bindings }

/-- Replaces the staged etag. -/
def setEtag (builder : Builder) (etag : Option String) : Builder := { builder with etag }

/-- Replaces the staged version. -/
def setVersion (builder : Builder) (version : Int) : Builder := { builder with version }

/-- The policy that a builder holds. -/
def build (builder : Builder) : Except Defect Policy :=
  Policy.construct (some (builder.bindings.map some)) builder.etag builder.version

end Builder

/-- A builder that starts from a policy. -/
def Policy.toBuilder (policy : Policy) : Except Defect Builder :=
  (Builder.setBindings {} (some (policy.bindings.map some))).map fun builder =>
    (builder.setEtag policy.etag).setVersion policy.version

/-- The policy that comes out when a policy is put into a builder and built again. -/
def Policy.rebuilt (policy : Policy) : Except Defect Policy :=
  policy.toBuilder.bind Builder.build

/-- Building what a complete builder holds succeeds. -/
theorem Builder.build_of_complete {builder : Builder} (hc : builder.IsComplete) :
    builder.build = .ok ⟨builder.bindings, builder.etag, builder.version⟩ := by
  simp only [build, Policy.construct, checkedBindings, completeBindings_of_complete hc,
    Except.map]

/-- A builder that starts from a complete policy holds the parts of the policy. -/
theorem Policy.toBuilder_of_complete {policy : Policy} (hc : policy.IsComplete) :
    policy.toBuilder = .ok ⟨policy.bindings, policy.etag, policy.version⟩ := by
  simp only [toBuilder, Builder.setBindings, checkedBindings,
    completeBindings_of_complete hc, Except.map, Builder.setEtag, Builder.setVersion]

end AccessPolicy
