import AccessPolicy.Json.Decimal

/-!
# Documents

A document is a tree of values. Objects keep all their members in the order in which they came,
repeated names included. Octets do not occur in a text: a document that holds them was put
together in memory.
-/

namespace AccessPolicy.Json

/-- A document. -/
inductive Value where
  | null
  | bool (value : Bool)
  | integer (value : Int)
  | decimal (value : Decimal)
  | notANumber
  | infinity (negative : Bool)
  | text (value : String)
  | octets (value : List UInt8)
  | array (items : List Value)
  | object (members : List (String × Value))
  deriving Repr

/-- The value of the last member of a name. -/
def lastMember? (name : String) (members : List (String × Value)) : Option Value :=
  members.reverse.lookup name

/-- The text that octets are in UTF-8. -/
def utf8Text? (octets : List UInt8) : Option String := String.fromUTF8? ⟨octets.toArray⟩

end AccessPolicy.Json
