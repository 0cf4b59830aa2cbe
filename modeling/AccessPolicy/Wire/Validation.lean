import AccessPolicy.Base64
import AccessPolicy.Wire.Message
import AccessPolicy.Wire.Version

/-!
# Validating messages

A document is a message when it is an object whose declared members are acceptable and which has
no others, at every level. A member that is missing takes its default, and of a repeated one the
last counts. Every violation is reported: first the declared members in the order of their
declaration, then the undeclared ones in the order of the document.
-/

namespace AccessPolicy.Wire

open Json (Value)

/-- Checks a declared member of an object, which may be missing. -/
def member {α : Type} (name : String) (missing : α) (check : Value → Checked α)
    (members : List (String × Value)) : Checked α :=
  match Json.lastMember? name members with
  | none => .ok missing
  | some value => Checked.under (.key name) (check value)

/-- Checks that an object has declared members only. -/
def onlyDeclared (declared : List String) (members : List (String × Value)) : Checked Unit :=
  match members.filter fun (name, _) => !declared.contains name with
  | [] => .ok ()
  | extra => .error (extra.map fun (name, _) => ⟨.extraForbidden, [.key name]⟩)

/-- Checks the members of an object, and that it is one. -/
def object {α : Type} (check : List (String × Value) → Checked α) : Value → Checked α
  | .object members => check members
  | _ => .error [⟨.modelType, []⟩]

/-- Checks the items of an array, and that it is one. -/
def array {α : Type} (check : Value → Checked α) : Value → Checked (List α)
  | .array items => Checked.items check 0 items
  | _ => .error [⟨.listType, []⟩]

/-- The text that a document gives: octets count as the text that they are in UTF-8. -/
def textOf : Value → Except Cause String
  | .text text => .ok text
  | .octets octets =>
    match Json.utf8Text? octets with
    | some text => .ok text
    | none => .error .stringUnicode
  | _ => .error .stringType

/-- The octets that a document gives: a text counts as the octets that it is in Base64. -/
def octetsOf : Value → Except Cause (List UInt8)
  | .octets octets => .ok octets
  | .text text =>
    match Base64.decodeLenient? text.toList with
    | some octets => .ok octets
    | none => .error .bytesInvalidEncoding
  | _ => .error .bytesType

/-- Checks a text. -/
def checkText (value : Value) : Checked String := Checked.ofCause (textOf value)

/-- Checks a condition. -/
def Condition.ofValue : Value → Checked Condition :=
  object fun members =>
    (((((member "expression" "" checkText members).both
      (member "title" "" checkText members)).both
      (member "description" "" checkText members)).both
      (member "location" "" checkText members)).both
      (onlyDeclared ["expression", "title", "description", "location"] members)).map
      fun ((((expression, title), description), location), _) =>
        ⟨expression, title, description, location⟩

/-- Checks a condition that may be absent. -/
def conditionOf : Value → Checked (Option Condition)
  | .null => .ok none
  | value => (Condition.ofValue value).map some

/-- Checks a binding. -/
def Binding.ofValue : Value → Checked Binding :=
  object fun members =>
    ((((member "role" "" checkText members).both
      (member "members" [] (array checkText) members)).both
      (member "condition" none conditionOf members)).both
      (onlyDeclared ["role", "members", "condition"] members)).map
      fun (((role, texts), condition), _) => ⟨role, texts, condition⟩

/-- Checks a binding that is put together from a document and a condition of its own. The condition
is made first, so nothing else is reported if it is at fault. -/
def Binding.ofParts (document condition : Value) : Checked Binding := do
  let condition ← conditionOf condition
  let binding ← Binding.ofValue document
  return { binding with condition }

/-- Checks a message. -/
def Message.ofValue : Value → Checked Message :=
  object fun members =>
    ((((member "version" 0 (Checked.ofCause ∘ Version.ofValue) members).both
      (member "bindings" [] (array Binding.ofValue) members)).both
      (member "etag" [] (Checked.ofCause ∘ octetsOf) members)).both
      (onlyDeclared ["version", "bindings", "etag"] members)).map
      fun (((version, bindings), etag), _) => ⟨version, bindings, etag⟩

end AccessPolicy.Wire
