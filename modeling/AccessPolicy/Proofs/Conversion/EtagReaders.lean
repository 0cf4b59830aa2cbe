import AccessPolicy.Proofs.Base64.Readers
import AccessPolicy.Proofs.Conversion.Etag
import AccessPolicy.Proofs.Wire.Payloads
import AccessPolicy.Proofs.Wire.Reported
import AccessPolicy.Proofs.Wire.Rereading

/-!
# Etags of documents and of policies

An etag is read by the lenient reader in a document and by the strict one in a policy. So a text
that is good in both places stands for the same octets in both. A message is written with URL-safe
digits, and the etag of its text can be put into a policy unless one of the two digits stands in it
that only the URL-safe alphabet has.
-/

namespace AccessPolicy

open Json (Value)
open Json.Grammar (Document)

namespace Wire

/-- A text gives the octets that the lenient reader finds in it. -/
theorem octetsOf_text_eq_ok_iff {text : String} {octets : List UInt8} :
    octetsOf (.text text) = .ok octets ↔ Base64.decodeLenient? text.toList = some octets := by
  cases h : Base64.decodeLenient? text.toList with
  | none => simp [octetsOf, h]
  | some read => simp [octetsOf, h]

/-- A text is at fault as octets exactly if the lenient reader rejects it. -/
theorem fault?_octetsOf_text_iff {text : String} {cause : Cause} :
    fault? octetsOf (.text text) = some cause ↔
      Base64.decodeLenient? text.toList = none ∧ cause = .bytesInvalidEncoding := by
  cases h : Base64.decodeLenient? text.toList with
  | none => simp [fault?, octetsOf, h, eq_comm]
  | some read => simp [fault?, octetsOf, h]

namespace Message

variable {members : List (String × Value)} {text : String}

/-- A message that is validated has the octets that the lenient reader finds in its etag. -/
theorem decodeLenient?_etag {message : Message} (h : ofValue (.object members) = .ok message)
    (hlast : Json.lastMember? "etag" members = some (.text text)) :
    Base64.decodeLenient? text.toList = some message.etag := by
  obtain ⟨hgiven⟩ := ((enforces_ofValue _).eq_ok_iff message).mp h
  exact octetsOf_text_eq_ok_iff.mp (hgiven.etag.gives hlast)

/-- The etag of a document is reported exactly if the lenient reader rejects it. -/
theorem violates_etag_iff {cause : Cause}
    (hlast : Json.lastMember? "etag" members = some (.text text)) :
    schema.Violates (.object members) ⟨cause, [.key "etag"]⟩ ↔
      Base64.decodeLenient? text.toList = none ∧ cause = .bytesInvalidEncoding := by
  rw [← fault?_octetsOf_text_iff]
  constructor
  · intro hviolates
    generalize hdetail : (⟨cause, [.key "etag"]⟩ : Detail) = detail at hviolates
    cases hviolates with
    | noObject hvalue => exact absurd rfl (hvalue members)
    | @field _ _ name schema value inner hfield hmember hinner =>
      rw [Detail.under, Detail.mk.injEq, List.cons.injEq, Step.key.injEq] at hdetail
      obtain ⟨rfl, rfl, _⟩ := hdetail
      rw [hlast, Option.some.injEq] at hmember
      subst hmember
      have hschema : schema = .plain (fault? octetsOf) := by simpa [Message.schema] using hfield
      subst hschema
      cases hinner with
      | plain hfault => exact hfault
    | undeclared _ hname =>
      rw [Detail.mk.injEq, List.cons.injEq, Step.key.injEq] at hdetail
      obtain ⟨_, ⟨rfl, _⟩⟩ := hdetail
      exact absurd (by decide) hname
  · intro hfault
    exact .field (by simp) hlast (.plain hfault)

/-- So validation fails with a detail on the etag exactly if the lenient reader rejects it. -/
theorem exists_etag_detail_iff (hlast : Json.lastMember? "etag" members = some (.text text)) :
    (∃ details cause, ofValue (.object members) = .error details ∧
      ⟨cause, [.key "etag"]⟩ ∈ details) ↔ Base64.decodeLenient? text.toList = none := by
  simp only [(enforces_ofValue _).eq_error_iff]
  constructor
  · rintro ⟨_, cause, ⟨_, rfl⟩, hm⟩
    exact ((violates_etag_iff hlast).mp (Schema.violates_of_mem hm)).1
  · intro hnone
    have hm := Schema.mem_violations_iff.mpr ((violates_etag_iff hlast).mpr ⟨hnone, rfl⟩)
    exact ⟨_, _, ⟨List.ne_nil_of_mem hm, rfl⟩, hm⟩

/-- The last etag in the text of a message is the URL-safe text of its octets. -/
theorem lastMember?_etag_written (message : Message) :
    Json.lastMember? "etag" message.written =
      some (.text (String.ofList (Base64.encode .urlSafe message.etag))) :=
  rfl

end Message

end Wire

namespace Conversion

/-- With a text for every identity, a policy with an etag is encoded with the octets that the strict
reader finds in it, and otherwise the etag is reported. -/
theorem encode_etag (shown : Identity → String) (bindings : List Binding) (etag : String)
    (version : Int) :
    (encode (fun identity => some (shown identity)) ⟨bindings, some etag, version⟩).result =
      match Base64.decodeStrict? etag.toList with
      | some octets => .ok ⟨version, bindings.map (Binding.written shown), octets⟩
      | none => .error (.etag etag) := by
  rw [encode_of_total, encodeEtag]
  cases Base64.decodeStrict? etag.toList <;> rfl

/-- An etag that is accepted in a document and in a policy stands for the same octets. One that is
accepted in a document is accepted in a policy exactly if it has neither of the digits that only
the URL-safe alphabet has and its groups are complete, and is reported otherwise. One that is
accepted in a policy is reported in a document exactly if it has unused bits set or pads behind a
complete group. The text of a message is a text of an object with an etag, and this etag can be put
into a policy, and is encoded to the octets of the message, exactly if it has neither of these
digits. -/
theorem etag_readers_agree {members : List (String × Value)} {etag : String}
    (hlast : Json.lastMember? "etag" members = some (.text etag)) (shown : Identity → String)
    (bindings : List Binding) (version : Int) :
    let validated := Wire.Message.ofValue (.object members)
    let sent (etag : String) :=
      (encode (fun identity => some (shown identity)) ⟨bindings, some etag, version⟩).result
    (∀ json : String, Document ⟨200, 4300⟩ (.object members) json.toList →
      Wire.Message.ofPayload (.text json) = validated) ∧
    (∀ read message, validated = .ok read → sent etag = .ok message → message.etag = read.etag) ∧
    (∀ read, validated = .ok read →
      if ('-' ∉ etag.toList ∧ '_' ∉ etag.toList) ∧ etag.length % 4 = 0 then
        ∃ message, sent etag = .ok message
      else sent etag = .error (.etag etag)) ∧
    (∀ message, sent etag = .ok message →
      ((∃ details cause, validated = .error details ∧ ⟨cause, [.key "etag"]⟩ ∈ details) ↔
        Base64.HasUnusedBits etag.toList ∨ Base64.HasSurplusPads etag.toList)) ∧
    ∀ message : Wire.Message,
      let printed := String.ofList (Base64.encode .urlSafe message.etag)
      (∀ digits, (toString message.version).length ≤ digits →
        Document ⟨200, digits⟩ (.object message.written) message.toJson.toList) ∧
      Json.lastMember? "etag" message.written = some (.text printed) ∧
      ((∃ back, sent printed = .ok back ∧ back.etag = message.etag) ↔
        '-' ∉ printed.toList ∧ '_' ∉ printed.toList) := by
  intro validated sent
  have hsent (etag : String) : sent etag = _ := encode_etag shown bindings etag version
  have hstrict {etag : String} {message : Wire.Message} (h : sent etag = .ok message) :
      Base64.decodeStrict? etag.toList = some message.etag :=
    encodeEtag_some_eq_ok_iff.mp (encode_eq_ok_iff.mp h).2.1
  refine ⟨?_, ?_, ?_, ?_, ?_⟩
  · intro json hjson
    exact Wire.Message.ofPayload_of_document hjson
  · intro read message hread hmessage
    exact Base64.decodeStrict?_unique (hstrict hmessage)
      (Wire.Message.decodeLenient?_etag hread hlast)
  · intro read hread
    have hl := Wire.Message.decodeLenient?_etag hread hlast
    have hiff := Base64.decodeStrict?_eq_some_iff_of_lenient hl
    rw [String.length_toList] at hiff
    by_cases hc : ('-' ∉ etag.toList ∧ '_' ∉ etag.toList) ∧ etag.length % 4 = 0
    · rw [if_pos hc, hsent, hiff.mpr hc]
      exact ⟨_, rfl⟩
    · rw [if_neg hc, hsent]
      cases hs : Base64.decodeStrict? etag.toList with
      | none => rfl
      | some octets =>
        rw [Base64.decodeStrict?_unique hs hl] at hs
        exact absurd (hiff.mp hs) hc
  · intro message hmessage
    rw [Wire.Message.exists_etag_detail_iff hlast]
    exact Base64.decodeLenient?_eq_none_iff (hstrict hmessage)
  · intro message printed
    refine ⟨fun _ => Wire.Message.document_toJson, message.lastMember?_etag_written, ?_⟩
    have hprinted : printed.toList = Base64.encode .urlSafe message.etag := String.toList_ofList
    have hiff := Base64.decodeStrict?_eq_some_iff_of_lenient
      (Base64.decodeLenient?_encode .urlSafe message.etag)
    rw [and_iff_left (Base64.length_encode_mod .urlSafe message.etag), ← hprinted] at hiff
    rw [← hiff]
    constructor
    · rintro ⟨back, hback, he⟩
      rw [← he]
      exact hstrict hback
    · intro hs
      rw [hsent, hs]
      exact ⟨_, rfl, rfl⟩

/-- The members of an object with an etag. -/
private def tagged (etag : String) : List (String × Value) :=
  [("etag", .null), ("version", .integer 1), ("etag", .text etag)]

/-- Standard digits are accepted in both places, URL-safe digits without padding in a document
only, and unused bits in a policy only. -/
theorem etag_readers_agree_mixed :
    (Json.lastMember? "etag" (tagged "+/8=") = some (.text "+/8=") ∧
      Wire.Message.ofValue (.object (tagged "+/8=")) = .ok ⟨1, [], [251, 255]⟩ ∧
      ∃ message, (encode .text ⟨[], some "+/8=", 2⟩).result = .ok message ∧
        message.etag = [251, 255]) ∧
    (Json.lastMember? "etag" (tagged "-_8") = some (.text "-_8") ∧
      Wire.Message.ofValue (.object (tagged "-_8")) = .ok ⟨1, [], [251, 255]⟩ ∧
      (encode .text ⟨[], some "-_8", 2⟩).result = .error (.etag "-_8")) ∧
    (Json.lastMember? "etag" (tagged "QR==") = some (.text "QR==") ∧
      (encode .text ⟨[], some "QR==", 2⟩).result = .ok ⟨2, [], [65]⟩ ∧
      Base64.HasUnusedBits "QR==".toList ∧
      ∃ details cause, Wire.Message.ofValue (.object (tagged "QR==")) = .error details ∧
        ⟨cause, [.key "etag"]⟩ ∈ details) := by
  have hlast (etag : String) : Json.lastMember? "etag" (tagged etag) = some (.text etag) := rfl
  have hboth : Wire.Message.ofValue (.object (tagged "+/8=")) = .ok ⟨1, [], [251, 255]⟩ := by
    decide +kernel
  have hlenient : Wire.Message.ofValue (.object (tagged "-_8")) = .ok ⟨1, [], [251, 255]⟩ := by
    decide +kernel
  have hstrict : (encode .text ⟨[], some "QR==", 2⟩).result = .ok ⟨2, [], [65]⟩ := rfl
  have hunused : Base64.HasUnusedBits "QR==".toList :=
    ⟨'R', 17, rfl, rfl, Or.inl ⟨rfl, by decide⟩⟩
  refine ⟨⟨hlast _, hboth, ?_⟩, ⟨hlast _, hlenient, ?_⟩, ⟨hlast _, hstrict, hunused, ?_⟩⟩
  · obtain ⟨_, hsame, haccepted, _⟩ := etag_readers_agree (hlast "+/8=") Identity.text [] 2
    obtain ⟨message, hmessage⟩ := haccepted _ hboth
    exact ⟨message, hmessage, hsame _ _ hboth hmessage⟩
  · obtain ⟨_, _, haccepted, _⟩ := etag_readers_agree (hlast "-_8") Identity.text [] 2
    exact haccepted _ hlenient
  · obtain ⟨_, _, _, hreported, _⟩ := etag_readers_agree (hlast "QR==") Identity.text [] 2
    exact (hreported _ hstrict).mpr (Or.inl hunused)

end Conversion

end AccessPolicy
