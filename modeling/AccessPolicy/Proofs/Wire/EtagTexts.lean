import AccessPolicy.Proofs.Base64.Spellings
import AccessPolicy.Proofs.Conversion.EtagReaders
import AccessPolicy.Proofs.Wire.Reported

/-!
# Texts of etags

The etag of a document may be any spelling of its octets and nothing else. What is read is said of
every document in which the text is the last member of the name, whatever else there is in it.
-/

namespace AccessPolicy.Wire

open Base64 (IsMixed HasExcess HasStrayBits)
open Json (Value)
open Json.Grammar (Document)

/-- A text gives the octets that it spells. -/
theorem octetsOf_text_eq_ok_iff_spells {text : String} {octets : List UInt8} :
    octetsOf (.text text) = .ok octets ↔ Base64.Spells octets text.toList :=
  octetsOf_text_eq_ok_iff.trans Base64.decodeLenient?_eq_some_iff_spells

/-- A text that spells no octets gives none. -/
theorem octetsOf_text_of_not_spells {text : String}
    (h : ∀ octets, ¬Base64.Spells octets text.toList) :
    octetsOf (.text text) = .error .bytesInvalidEncoding := by
  have hnone := Base64.decodeLenient?_eq_none_iff_spells.mpr h
  rw [octetsOf, hnone]

namespace Message

variable {members : List (String × Value)}

/-- Validation reports on the etag at most the cause for which its last value gives no octets. -/
theorem reportedOn_etag {value : Value} (hlast : Json.lastMember? "etag" members = some value) :
    (ofValue (.object members)).reportedOn "etag" =
      (fault? octetsOf value).toList.map fun cause => ⟨cause, [.key "etag"]⟩ :=
  enforces_ofValue.reportedOn_plain (by decide) (by simp) hlast

/-- A document that has nothing but an etag gives its octets and has the defaults otherwise. -/
theorem ofValue_etag (value : Value) :
    ofValue (.object [("etag", value)]) =
      match octetsOf value with
      | .ok octets => .ok ⟨0, [], octets⟩
      | .error cause => .error [⟨cause, [.key "etag"]⟩] := by
  change ((((Checked.both (.ok 0) (.ok [])).both
    (Checked.under (.key "etag") (Checked.ofCause (octetsOf value)))).both (.ok ())).map _ :
      Checked Message) = _
  cases octetsOf value with
  | ok octets => rfl
  | error cause => rfl

/-- Such a document is a message with the octets that its etag gives. -/
theorem ofValue_etag_eq_ok_iff {value : Value} {octets : List UInt8} :
    ofValue (.object [("etag", value)]) = .ok ⟨0, [], octets⟩ ↔ octetsOf value = .ok octets := by
  rw [ofValue_etag]
  cases octetsOf value with
  | ok found => simp
  | error cause => simp

/-- Validation reads the etag of a document as the octets that the text spells: then nothing is
reported on it, a message has these octets, and a document with nothing else is a message with them.
A text that spells no octets is reported, and nothing else is reported on the etag. So digits of
both alphabets, more behind the digits than completes the last group and bits that belong to no
octet are reported. Octets are spelled by what they are written as in either alphabet, in particular
by the etag in the text of a message, and no text spells others as well. -/
theorem etag_texts {text : String} (hlast : Json.lastMember? "etag" members = some (.text text)) :
    let validated := ofValue (.object members)
    let spells (octets : List UInt8) := Base64.Spells octets text.toList
    let rejected : List Detail := [⟨.bytesInvalidEncoding, [.key "etag"]⟩]
    (∀ json : String, Document ⟨200, 4300⟩ (.object members) json.toList →
      ofPayload (.text json) = validated) ∧
    (∀ octets, spells octets → validated.reportedOn "etag" = [] ∧
      ∀ message, validated = .ok message → message.etag = octets) ∧
    (∀ octets, ofValue (.object [("etag", .text text)]) = .ok ⟨0, [], octets⟩ ↔ spells octets) ∧
    ((∀ octets, ¬spells octets) → validated.reportedOn "etag" = rejected ∧
      ofValue (.object [("etag", .text text)]) = .error rejected) ∧
    (IsMixed text.toList ∨ HasExcess text.toList ∨ HasStrayBits text.toList →
      validated.reportedOn "etag" = rejected) ∧
    (∀ octets other, spells octets → spells other → octets = other) ∧
    (∀ alphabet octets, Base64.Spells octets (Base64.encode alphabet octets)) ∧
    ∀ message : Message,
      let printed := String.ofList (Base64.encode .urlSafe message.etag)
      (∀ digits, (toString message.version).length ≤ digits →
        Document ⟨200, digits⟩ (.object message.written) message.toJson.toList) ∧
      Json.lastMember? "etag" message.written = some (.text printed) ∧
      Base64.Spells message.etag printed.toList := by
  intro validated spells rejected
  have hrejected : (∀ octets, ¬spells octets) → validated.reportedOn "etag" = rejected := by
    intro hnone
    rw [reportedOn_etag hlast, fault?, octetsOf_text_of_not_spells hnone]
    rfl
  refine ⟨fun _ => ofPayload_of_document, ?_, fun _ => ?_, ?_, ?_, fun _ _ => Base64.Spells.unique,
    Base64.spells_encode, ?_⟩
  · intro octets hspells
    constructor
    · rw [reportedOn_etag hlast, fault?, octetsOf_text_eq_ok_iff_spells.mpr hspells]
      rfl
    · intro message hmessage
      have hread := Base64.decodeLenient?_eq_some_iff_spells.mp (decodeLenient?_etag hmessage hlast)
      exact hread.unique hspells
  · exact ofValue_etag_eq_ok_iff.trans octetsOf_text_eq_ok_iff_spells
  · intro hnone
    refine ⟨hrejected hnone, ?_⟩
    rw [ofValue_etag, octetsOf_text_of_not_spells hnone]
  · intro hbad
    refine hrejected fun octets hspells => ?_
    rcases hbad with hmixed | hexcess | hstray
    · exact hspells.not_isMixed hmixed
    · exact hspells.not_hasExcess hexcess
    · exact hspells.not_hasStrayBits hstray
  · intro message printed
    refine ⟨fun _ => document_toJson, message.lastMember?_etag_written, ?_⟩
    rw [String.toList_ofList]
    exact Base64.spells_encode .urlSafe message.etag

/-- The members of an object with an etag, an earlier one of the same name and a wrong version. -/
private def faulty (etag : String) : List (String × Value) :=
  [("etag", .null), ("version", .null), ("etag", .text etag)]

/-- URL-safe digits without a pad are read in a document with another fault. Digits of both
alphabets are reported along with that fault, and so are a pad behind a complete group and bits that
belong to no octet. -/
theorem etag_texts_faulty :
    (Json.lastMember? "etag" (faulty "-_8") = some (.text "-_8") ∧
      Base64.Spells [251, 255] "-_8".toList ∧
      (ofValue (.object (faulty "-_8"))).reportedOn "etag" = [] ∧
      ofValue (.object [("etag", .text "-_8")]) = .ok ⟨0, [], [251, 255]⟩) ∧
    (ofValue (.object (faulty "+_8=")) =
        .error [⟨.intType, [.key "version"]⟩, ⟨.bytesInvalidEncoding, [.key "etag"]⟩] ∧
      IsMixed "+_8=".toList ∧ (ofValue (.object (faulty "+_8="))).reportedOn "etag" =
        [⟨.bytesInvalidEncoding, [.key "etag"]⟩]) ∧
    (HasExcess "QUJD=".toList ∧ (ofValue (.object (faulty "QUJD="))).reportedOn "etag" =
      [⟨.bytesInvalidEncoding, [.key "etag"]⟩]) ∧
    (HasStrayBits "QR".toList ∧ (ofValue (.object (faulty "QR"))).reportedOn "etag" =
      [⟨.bytesInvalidEncoding, [.key "etag"]⟩]) := by
  have hlast (etag : String) : Json.lastMember? "etag" (faulty etag) = some (.text etag) := rfl
  have hspells : Base64.Spells [251, 255] "-_8".toList := ⟨.urlSafe, 1, by decide⟩
  have hmixed : IsMixed "+_8=".toList :=
    ⟨⟨'+', by decide, .inl rfl⟩, ⟨'_', by decide, .inr rfl⟩⟩
  have hexcess : HasExcess "QUJD=".toList := by unfold HasExcess; decide
  have hstray : HasStrayBits "QR".toList := ⟨.standard, 'R', 17, rfl, rfl, .inl ⟨rfl, by decide⟩⟩
  obtain ⟨_, hread, halone, _⟩ := etag_texts (hlast "-_8")
  obtain ⟨_, _, _, _, hplus, _⟩ := etag_texts (hlast "+_8=")
  obtain ⟨_, _, _, _, hpad, _⟩ := etag_texts (hlast "QUJD=")
  obtain ⟨_, _, _, _, hbits, _⟩ := etag_texts (hlast "QR")
  have hboth : ofValue (.object (faulty "+_8=")) =
      .error [⟨.intType, [.key "version"]⟩, ⟨.bytesInvalidEncoding, [.key "etag"]⟩] := rfl
  exact ⟨⟨hlast _, hspells, (hread _ hspells).1, (halone _).mpr hspells⟩,
    ⟨hboth, hmixed, hplus (.inl hmixed)⟩, ⟨hexcess, hpad (.inr (.inl hexcess))⟩,
    ⟨hstray, hbits (.inr (.inr hstray))⟩⟩

end Message

end AccessPolicy.Wire
