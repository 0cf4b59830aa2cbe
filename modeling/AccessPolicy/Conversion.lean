import AccessPolicy.Base64
import AccessPolicy.Fault
import AccessPolicy.Policy
import AccessPolicy.Text.Decimal
import AccessPolicy.Wire.Message

/-!
# Conversion

A message is decoded to a policy and a policy is encoded to a message. How identities are read and
written is a parameter of both. Conditions are not converted in either direction. A conversion
keeps a log, and what was logged before a failure stays logged. The log is turned into records only
if somebody wants to see them, and this can fail: the version of a policy may have more digits than
may be written out. Then this is the failure, and the conversion ends there.
-/

namespace AccessPolicy

/-- How important a log record is. -/
inductive Level where
  | debug
  | warning
  deriving DecidableEq, Repr

/-- A record in a log. -/
structure Record where
  /-- How important the record is. -/
  level : Level
  /-- What the record says. -/
  text : String
  deriving DecidableEq, Repr

/-- What a conversion logs. -/
inductive Entry where
  /-- A message was read. -/
  | decoded (version : Int) (bindings : Nat)
  /-- A policy was written. -/
  | encoded (version : Int) (bindings : Nat)
  /-- The condition on a role is not converted. -/
  | dropped (role : String)
  deriving DecidableEq, Repr

namespace Entry

/-- A record that a policy was read or written. -/
def converted (what version : String) (bindings : Nat) : Record :=
  ⟨.debug, what ++ " policy v" ++ version ++ " with " ++ toString bindings ++ " bindings"⟩

/-- The record of an entry, if the version that it shows can be written out. There are never so many
bindings that their number could not be. -/
def record (digits : Option Nat) : Entry → Except Fault Record
  | decoded version bindings =>
    ((Text.decimal digits version).mapError .unwritable).map (converted "decoded" · bindings)
  | encoded version bindings =>
    ((Text.decimal digits version).mapError .unwritable).map (converted "encoded" · bindings)
  | dropped role => .ok ⟨.warning, "condition on " ++ role ++ " is not encoded; dropping it"⟩

end Entry

/-- A result with the log of how it came about. -/
structure Logged (α : Type) where
  /-- The result. -/
  result : Except Fault α
  /-- The entries, earliest first. -/
  log : List Entry

/-- A result with the records that somebody sees. -/
structure Shown (α : Type) where
  /-- The result. -/
  result : Except Fault α
  /-- The records, earliest first. -/
  records : List Record

/-- What becomes of logs. -/
structure Logger where
  /-- Whether there is somebody to see the records. -/
  on : Bool
  /-- The number of digits that may be written out, if there is a limit. -/
  digits : Option Nat
  deriving DecidableEq, Repr

namespace Logger

/-- The records of a log, up to the first one that cannot be made, and the fault in this if there is
one. -/
def records (logger : Logger) : List Entry → List Record × Except Fault Unit
  | [] => ([], .ok ())
  | entry :: rest =>
    match entry.record logger.digits with
    | .error fault => ([], .error fault)
    | .ok record =>
      let (others, ending) := logger.records rest
      (record :: others, ending)

/-- What is seen of a conversion: no records unless there is somebody to see them. A record that
cannot be made ends the conversion. -/
def shown {α : Type} (logger : Logger) (outcome : Logged α) : Shown α :=
  if logger.on then
    let (records, ending) := logger.records outcome.log
    ⟨ending.bind fun _ => outcome.result, records⟩
  else ⟨outcome.result, []⟩

end Logger

/-- How the texts of identities are read. -/
abbrev Parse := String → Except Identity.Unreadable (Option Identity)

/-- How identities are written; a formatter may have no text for an identity. -/
abbrev Format := Identity → Option String

/-- Reads canonical texts. -/
def Parse.canonical : Parse := fun text => (Identity.ofText text).map some

/-- Writes the text of an identity. -/
def Format.text : Format := fun identity => some identity.text

namespace Conversion

/-! ## Decoding -/

/-- The binding of a wire binding. -/
def decodeBinding (parse : Parse) (binding : Wire.Binding) :
    Except Identity.Unreadable Binding :=
  (binding.members.mapM parse).map fun identities =>
    ⟨some (Role.ofName binding.role), some (OrderedSet.ofList identities), none⟩

/-- The etag of a policy: none for no octets, otherwise their standard Base64 text. -/
def decodeEtag (octets : List UInt8) : Option String :=
  if octets.isEmpty then none else some (String.ofList (Base64.encode .standard octets))

/-- The policy of a message. -/
def decode (parse : Parse) (message : Wire.Message) : Logged Policy :=
  match message.bindings.mapM (decodeBinding parse) with
  | .error unreadable => ⟨.error (.unreadable unreadable), []⟩
  | .ok bindings =>
    ⟨(Policy.construct (some (bindings.map some)) (decodeEtag message.etag)
        message.version).mapError .defect,
      [.decoded message.version bindings.length]⟩

/-! ## Encoding -/

/-- The details on members for which there is no text, by their indices. -/
def missingTexts (members : List (Option String)) : List Wire.Detail :=
  (members.zipIdx.filter fun (text, _) => text.isNone).map fun (_, index) =>
    ⟨.stringType, [.key "members", .index index]⟩

/-- The wire binding of a binding: the role as it is, and the texts of the members. In whatever
order the members are gone through, their texts are put by code point. -/
def encodeBinding (format : Format) (binding : Binding) (listing : Listing := .sorted) :
    Except Fault Wire.Binding :=
  let texts := (binding.listed listing).map format
  match missingTexts texts with
  | [] => .ok ⟨binding.roleName, (texts.filterMap id).mergeSort (fun a b => decide (a ≤ b)), none⟩
  | details => .error (.invalid details)

/-- What is logged of a binding: that its condition is not converted, if it has one. -/
def warning (binding : Binding) : List Entry :=
  if binding.condition.isSome then [.dropped binding.roleName] else []

/-- The wire bindings of bindings, up to the first that has none; conditions on the way are
logged. -/
def encodeBindings (format : Format) (bindings : List Binding) (listing : Listing := .sorted) :
    Logged (List Wire.Binding) :=
  match bindings with
  | [] => ⟨.ok [], []⟩
  | binding :: rest =>
    match encodeBinding format binding listing with
    | .error fault => ⟨.error fault, warning binding⟩
    | .ok first =>
      let others := encodeBindings format rest listing
      ⟨others.result.map (first :: ·), warning binding ++ others.log⟩

/-- The octets of a policy's etag. -/
def encodeEtag : Option String → Except Fault (List UInt8)
  | none => .ok []
  | some etag =>
    match Base64.decodeStrict? etag.toList with
    | some octets => .ok octets
    | none => .error (.etag etag)

/-- The message of a policy. -/
def encode (format : Format) (policy : Policy) (listing : Listing := .sorted) :
    Logged Wire.Message :=
  let bindings := encodeBindings format policy.bindings listing
  match bindings.result, encodeEtag policy.etag with
  | .error fault, _ => ⟨.error fault, bindings.log⟩
  | .ok _, .error fault => ⟨.error fault, bindings.log⟩
  | .ok encoded, .ok etag =>
    ⟨.ok ⟨policy.version, encoded, etag⟩,
      bindings.log ++ [.encoded policy.version encoded.length]⟩

end Conversion

end AccessPolicy
