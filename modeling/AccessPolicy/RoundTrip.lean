import AccessPolicy.Conversion
import AccessPolicy.Wire.Text

/-!
# Round trips

A payload is read, decoded, encoded, written, read again and decoded again. The two messages and
the two policies are compared.
-/

namespace AccessPolicy

/-- What a round trip brings to light. -/
structure RoundTrip where
  /-- The policy of the payload. -/
  policy : Policy
  /-- The text of the policy's message. -/
  json : String
  /-- Whether that message is the one in the payload. -/
  sameMessage : Bool
  /-- Whether the text leads to the same policy again. -/
  samePolicy : Bool
  deriving DecidableEq, Repr

/-- The message of a payload. -/
def receive (payload : Wire.Payload) : Except Fault Wire.Message :=
  (Wire.Message.ofPayload payload).mapError .invalid

/-- The round trip of a payload. -/
def RoundTrip.ofPayload (payload : Wire.Payload) : Except Fault RoundTrip := do
  let message ← receive payload
  let policy ← (Conversion.decode .canonical message).result
  let encoded ← (Conversion.encode .text policy).result
  let json := encoded.toJson
  let reread ← receive (.text json)
  let again ← (Conversion.decode .canonical reread).result
  return ⟨policy, json, encoded == message, again == policy⟩

end AccessPolicy
