import AccessPolicy.Json.Value
import AccessPolicy.Text.Blank
import AccessPolicy.Wire.Detail
import AccessPolicy.Wire.Numeral

/-!
# Versions

The version of a message may be given as an integer, a truth value, a number without a fraction
or a numeral in a text, which may be loose and have blanks around it.
-/

namespace AccessPolicy.Wire.Version

open Json (Value)

/-- The version that a text gives. A numeral that is plain from the first character on and too long
is told apart from what is no numeral. -/
def ofText (text : String) : Except Cause Int :=
  if Numeral.isOversized text.toList then .error .intParsingSize
  else match Numeral.loose? (Text.trim text.toList) with
    | some version => .ok version
    | none => .error .intParsing

/-- The version that a decimal number gives: the integer that it is nearest to as a double. -/
def ofDecimal (decimal : Json.Decimal) : Except Cause Int :=
  match decimal.nearest with
  | .infinite => .error .finiteNumber
  | .fraction => .error .intFromFloat
  | .integer value =>
    if -Int.pow 2 63 < value ∧ value < Int.pow 2 63 then .ok value else .error .intParsingSize

/-- The version that a document gives. -/
def ofValue : Value → Except Cause Int
  | .integer value => .ok value
  | .bool value => .ok (if value then 1 else 0)
  | .decimal value => ofDecimal value
  | .notANumber | .infinity _ => .error .finiteNumber
  | .text text => ofText text
  | .octets octets =>
    match Json.utf8Text? octets with
    | some text => ofText text
    | none => .error .intParsing
  | .null | .array _ | .object _ => .error .intType

end AccessPolicy.Wire.Version
