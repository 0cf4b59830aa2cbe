import AccessPolicy.Fault
import AccessPolicy.Policy
import AccessPolicy.Text.Decimal
import AccessPolicy.Text.Quoted

/-!
# Rendering

The rendering of a policy shows every field by name. Texts are quoted, absent values are shown as
such, and a single binding in a list has a comma behind it. The members of an identity set are shown
in whatever order they come, so a policy can have several renderings, and it has none if its version
has more digits than may be written out.
-/

namespace AccessPolicy

namespace Rendering

/-- The rendering of something that may be absent. -/
def optional {α : Type} (render : α → String) : Option α → String
  | none => "None"
  | some value => render value

/-- A field by name. -/
def field (name value : String) : String := name ++ "=" ++ value

/-- A value by the name of its type and its fields. -/
def record (name : String) (fields : List String) : String :=
  name ++ "(" ++ ", ".intercalate fields ++ ")"

/-- A sequence in parentheses. -/
def sequence : List String → String
  | [item] => "(" ++ item ++ ",)"
  | items => "(" ++ ", ".intercalate items ++ ")"

/-- A set in braces. -/
def collection : List String → String
  | [] => "frozenset()"
  | items => "frozenset(\x7b" ++ ", ".intercalate items ++ "\x7d)"

end Rendering

open Rendering

/-- The name of a kind in capitals, with its words joined by underscores. -/
def Kind.constant : Kind → String
  | user => "USER"
  | serviceAccount => "SERVICE_ACCOUNT"
  | group => "GROUP"
  | domain => "DOMAIN"
  | allUsers => "ALL_USERS"
  | allAuthenticatedUsers => "ALL_AUTHENTICATED_USERS"
  | projectOwner => "PROJECT_OWNER"
  | projectEditor => "PROJECT_EDITOR"
  | projectViewer => "PROJECT_VIEWER"

/-- The rendering of a kind. -/
def Kind.render (kind : Kind) : String :=
  "<IdentityType." ++ kind.constant ++ ": " ++ Text.quoted kind.name ++ ">"

/-- The rendering of an identity. -/
def Identity.render (identity : Identity) : String :=
  record "Identity" [field "type" identity.kind.render,
    field "value" (optional Text.quoted identity.value)]

/-- The rendering of a role. -/
def Role.render (role : Role) : String :=
  record "Role" [field "value" (optional Text.quoted role.name)]

/-- The rendering of a condition. -/
def Condition.render (condition : Condition) : String :=
  record "Condition" [field "title" (optional Text.quoted condition.title),
    field "description" (optional Text.quoted condition.description),
    field "expression" (optional Text.quoted condition.expression)]

/-- The rendering of an identity set with these members. -/
def renderMembers (members : List (Option Identity)) : String :=
  collection (members.map (optional Identity.render))

/-- The rendering of an identity set. -/
def IdentitySet.render (listing : Listing) (identities : IdentitySet) : String :=
  renderMembers (listing.list identities)

/-- The rendering of a binding. -/
def Binding.render (listing : Listing) (binding : Binding) : String :=
  record "Binding" [field "role" (optional Role.render binding.role),
    field "identities" (optional (IdentitySet.render listing) binding.identities),
    field "condition" (optional Condition.render binding.condition)]

/-- The rendering of a policy. -/
def Policy.render (listing : Listing) (digits : Option Nat) (policy : Policy) :
    Except Fault String :=
  ((Text.decimal digits policy.version).mapError .unwritable).map fun version =>
    record "Policy" [field "bindings" (sequence (policy.bindings.map (Binding.render listing))),
      field "etag" (optional Text.quoted policy.etag), field "version" version]

end AccessPolicy
