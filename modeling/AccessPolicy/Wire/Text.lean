import AccessPolicy.Json.Reader
import AccessPolicy.Json.Writer
import AccessPolicy.Wire.Validation

/-!
# Messages as JSON

A message is written as the text of its document. Reading takes a text or octets, which must be
UTF-8, finds the document and validates it; whatever is wrong with the text itself is one
violation at the root.
-/

namespace AccessPolicy.Wire

/-- What the service may send at most: documents nested two hundred deep and integers of 4300
characters. -/
def limits : Json.Limits := ⟨200, 4300⟩

/-- The report on a text that is no document. -/
def notJson : List Detail := [⟨.jsonInvalid, []⟩]

/-- A payload as it arrives. -/
inductive Payload where
  /-- Decoded text. -/
  | text (text : String)
  /-- Octets as they were sent. -/
  | octets (octets : List UInt8)
  deriving DecidableEq, Repr

/-- The text of a payload. -/
def Payload.text? : Payload → Option String
  | .text given => some given
  | .octets sent => Json.utf8Text? sent

namespace Message

/-- The message that a text is. -/
def ofJson (json : String) : Checked Message :=
  match Json.Value.ofText? limits json with
  | none => .error notJson
  | some value => ofValue value

/-- The message that a payload is. -/
def ofPayload (payload : Payload) : Checked Message :=
  match payload.text? with
  | none => .error notJson
  | some json => ofJson json

/-- The text of a message. -/
def toJson (message : Message) : String := message.toValue.toText

/-- Whether the text of a message is read as the same message, if it is read at all. -/
def rereads (message : Message) : Checked Bool := (ofJson message.toJson).map (· == message)

end Message

end AccessPolicy.Wire
