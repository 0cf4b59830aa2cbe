import AccessPolicy.Base64
import AccessPolicy.Json.Value
import AccessPolicy.Text.Hex

/-!
# Writing documents

Documents are written without any blank. Within a text only the quotation mark, the backslash and
the control characters below the space are escaped, the usual ones by name. JSON has no octets, so
octets are written as a text in padded URL-safe Base64.
-/

namespace AccessPolicy.Json

namespace Writer

/-- A character as it stands in a text. -/
def escape (c : Char) : List Char :=
  if c = '"' ∨ c = '\\' then ['\\', c]
  else if c = '\x08' then ['\\', 'b']
  else if c = '\x0c' then ['\\', 'f']
  else if c = '\n' then ['\\', 'n']
  else if c = '\r' then ['\\', 'r']
  else if c = '\t' then ['\\', 't']
  else if c.toNat < 0x20 then '\\' :: 'u' :: Text.Hex.fixed 4 c.toNat
  else [c]

/-- A text between quotation marks. -/
def text (cs : List Char) : List Char := '"' :: cs.flatMap escape ++ ['"']

/-- An integer in decimal digits. -/
def integer (value : Int) : List Char :=
  if value < 0 then '-' :: Nat.toDigits 10 value.natAbs else Nat.toDigits 10 value.natAbs

/-- A decimal number by its digits and exponent. -/
def decimal (value : Decimal) : List Char :=
  (if value.negative then ['-'] else []) ++ Nat.toDigits 10 value.coefficient ++
    'e' :: integer value.exponent

end Writer

open Writer

mutual

/-- The characters of a document. -/
def Value.render : Value → List Char
  | .null => ['n', 'u', 'l', 'l']
  | .bool true => ['t', 'r', 'u', 'e']
  | .bool false => ['f', 'a', 'l', 's', 'e']
  | .integer value => integer value
  | .decimal value => decimal value
  | .notANumber => ['N', 'a', 'N']
  | .infinity negative => (if negative then ['-'] else []) ++ "Infinity".toList
  | .text value => text value.toList
  | .octets value => text (Base64.encode .urlSafe value)
  | .array items => '[' :: renderItems items
  | .object members => '{' :: renderMembers members

/-- The items of an array and its closing bracket. -/
def renderItems : List Value → List Char
  | [] => [']']
  | [item] => item.render ++ [']']
  | item :: rest => item.render ++ ',' :: renderItems rest

/-- The members of an object and its closing brace. -/
def renderMembers : List (String × Value) → List Char
  | [] => ['}']
  | [(name, value)] => text name.toList ++ ':' :: value.render ++ ['}']
  | (name, value) :: rest => text name.toList ++ ':' :: value.render ++ ',' :: renderMembers rest

end

/-- The text of a document. -/
def Value.toText (value : Value) : String := String.ofList value.render

end AccessPolicy.Json
