import AccessPolicy.Json.Value

/-!
# Wire messages

A wire message is what is exchanged with the service: every field is present and plain, members
are texts and the etag is octets. Written as a document, a message lists its fields in the order
of their declaration and leaves out a condition that is not there.
-/

namespace AccessPolicy.Wire

open Json (Value)

/-- A condition on the wire. -/
structure Condition where
  /-- The expression that decides. -/
  expression : String := ""
  /-- A short name. -/
  title : String := ""
  /-- A longer explanation. -/
  description : String := ""
  /-- Where the expression comes from. -/
  location : String := ""
  deriving DecidableEq, Repr

/-- A binding on the wire. -/
structure Binding where
  /-- The name of the role. -/
  role : String := ""
  /-- The texts of the identities. -/
  members : List String := []
  /-- When the binding applies. -/
  condition : Option Condition := none
  deriving DecidableEq, Repr

/-- A policy on the wire. -/
structure Message where
  /-- The version of the policy's schema. -/
  version : Int := 0
  /-- The bindings, in order. -/
  bindings : List Binding := []
  /-- The token of the stored policy. -/
  etag : List UInt8 := []
  deriving DecidableEq, Repr

/-- The document of a condition. -/
def Condition.toValue (condition : Condition) : Value :=
  .object [("expression", .text condition.expression), ("title", .text condition.title),
    ("description", .text condition.description), ("location", .text condition.location)]

/-- The document of a binding. -/
def Binding.toValue (binding : Binding) : Value :=
  .object ([("role", .text binding.role), ("members", .array (binding.members.map .text))] ++
    binding.condition.toList.map fun condition => ("condition", condition.toValue))

/-- The document of a message. -/
def Message.toValue (message : Message) : Value :=
  .object [("version", .integer message.version),
    ("bindings", .array (message.bindings.map Binding.toValue)), ("etag", .octets message.etag)]

end AccessPolicy.Wire
