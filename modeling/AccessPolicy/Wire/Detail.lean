/-!
# Validation details

A document that is not a message is reported by details. Each names a cause and the path from the
root of the document to the value that is at fault.
-/

namespace AccessPolicy.Wire

/-- Why a value is not acceptable where it stands. -/
inductive Cause where
  /-- The text is no document. -/
  | jsonInvalid
  /-- The value is no object. -/
  | modelType
  /-- The value is no array. -/
  | listType
  /-- The value is no text. -/
  | stringType
  /-- The octets are no text. -/
  | stringUnicode
  /-- The value is no number. -/
  | intType
  /-- The text is no numeral of an integer. -/
  | intParsing
  /-- The number is too large. -/
  | intParsingSize
  /-- The number has a fraction. -/
  | intFromFloat
  /-- The number is not finite. -/
  | finiteNumber
  /-- The value is neither octets nor a text of them. -/
  | bytesType
  /-- The text is not Base64. -/
  | bytesInvalidEncoding
  /-- The member is not declared. -/
  | extraForbidden
  deriving DecidableEq, Repr

/-- The word for a cause. -/
def Cause.name : Cause → String
  | jsonInvalid => "json_invalid"
  | modelType => "model_type"
  | listType => "list_type"
  | stringType => "string_type"
  | stringUnicode => "string_unicode"
  | intType => "int_type"
  | intParsing => "int_parsing"
  | intParsingSize => "int_parsing_size"
  | intFromFloat => "int_from_float"
  | finiteNumber => "finite_number"
  | bytesType => "bytes_type"
  | bytesInvalidEncoding => "bytes_invalid_encoding"
  | extraForbidden => "extra_forbidden"

/-- One level of descent into a document. -/
inductive Step where
  /-- Into the member of a name. -/
  | key (name : String)
  /-- Into the item at an index. -/
  | index (index : Nat)
  deriving DecidableEq, Repr

/-- One violation. -/
structure Detail where
  /-- What is wrong. -/
  cause : Cause
  /-- Where it is wrong. -/
  path : List Step := []
  deriving DecidableEq, Repr

/-- The detail as seen from one level higher up. -/
def Detail.under (step : Step) (detail : Detail) : Detail :=
  { detail with path := step :: detail.path }

/-- The result of a check that reports all violations. -/
abbrev Checked := Except (List Detail)

namespace Checked

/-- A check of a value that is found one level down. -/
def under {α : Type} (step : Step) (checked : Checked α) : Checked α :=
  checked.mapError fun details => details.map (Detail.under step)

/-- Two checks together: both must pass, and the violations of both are reported in order. -/
def both {α β : Type} (first : Checked α) (second : Checked β) : Checked (α × β) :=
  match first, second with
  | .ok a, .ok b => .ok (a, b)
  | .ok _, .error details => .error details
  | .error details, .ok _ => .error details
  | .error details, .error more => .error (details ++ more)

/-- A check that can fail for one cause at the value itself. -/
def ofCause {α : Type} (checked : Except Cause α) : Checked α :=
  checked.mapError fun cause => [⟨cause, []⟩]

/-- Checks of the items of a list from an index on. -/
def items {α β : Type} (check : α → Checked β) : (index : Nat) → List α → Checked (List β)
  | _, [] => .ok []
  | index, item :: rest =>
    (both (under (.index index) (check item)) (items check (index + 1) rest)).map
      fun (first, others) => first :: others

end Checked

end AccessPolicy.Wire
