import AccessPolicy.Proofs.Base64.Exact
import AccessPolicy.Proofs.Conversion.ReadBack

/-!
# What becomes of an etag

The octets of an accepted etag are all that the service gets to see of it. An exact etag is
recovered from its octets, so it comes back as it was sent and no other exact etag has the same
octets. Any other accepted etag comes back as the exact etag with the same octets.
-/

namespace AccessPolicy.Conversion

/-- The octets of an accepted etag that is not empty are decoded to the text that they are
written as. -/
theorem decodeEtag_of_encodeEtag {text : String} {octets : List UInt8} (hne : text ≠ "")
    (h : encodeEtag (some text) = .ok octets) :
    decodeEtag octets = some (String.ofList (Base64.encode .standard octets)) := by
  have hd := encodeEtag_some_eq_ok_iff.mp h
  have ho : octets ≠ [] := by
    rintro rfl
    exact hne (String.toList_eq_nil_iff.mp (Base64.decodeStrict?_eq_some_nil_iff.mp hd))
  rw [decodeEtag, if_neg (by rwa [List.isEmpty_iff])]

/-- The octets of an accepted etag are written as the etag itself exactly if it is exact. -/
theorem ofList_encode_eq_iff {text : String} {octets : List UInt8}
    (h : encodeEtag (some text) = .ok octets) :
    String.ofList (Base64.encode .standard octets) = text ↔ Base64.IsExact text.toList := by
  rw [← Base64.encode_eq_iff_isExact (encodeEtag_some_eq_ok_iff.mp h), ← String.toList_inj,
    String.toList_ofList]

/-- An etag that is encoded comes back as the text of its octets, which is the etag itself exactly
if it is exact. Two exact etags have the same octets only if they are the same. -/
theorem encode_etag_kept_iff {format : Format} {policy : Policy} {message : Wire.Message}
    {text : String} (ht : policy.etag = some text) (hne : text ≠ "")
    (hm : (encode format policy).result = .ok message) :
    (String.ofList (Base64.encode .standard message.etag) = text ↔
      Base64.IsExact text.toList) ∧
    (∀ parse back, (decode parse message).result = .ok back →
      back.etag = some (String.ofList (Base64.encode .standard message.etag))) ∧
    (∀ format' other message' text', other.etag = some text' →
      (encode format' other).result = .ok message' → Base64.IsExact text.toList →
      Base64.IsExact text'.toList → (message'.etag = message.etag ↔ text' = text)) := by
  obtain ⟨_, he, _⟩ := encode_eq_ok_iff.mp hm
  rw [ht] at he
  refine ⟨ofList_encode_eq_iff he, ?_, ?_⟩
  · intro parse back hb
    obtain ⟨_, _, hback, _⟩ := decode_eq_ok_iff.mp hb
    rw [hback, decodeEtag_of_encodeEtag hne he]
  · intro format' other message' text' ht' hm' hx hx'
    obtain ⟨_, he', _⟩ := encode_eq_ok_iff.mp hm'
    rw [ht'] at he'
    constructor
    · intro ho
      rw [← (ofList_encode_eq_iff he').mpr hx', ho, (ofList_encode_eq_iff he).mpr hx]
    · rintro rfl
      rw [he, Except.ok.injEq] at he'
      exact he'.symm

/-- The etag of three octets is kept, and so is read back from its message. -/
theorem encode_etag_kept_abc :
    (encode .text ⟨[], some "QUJD", 1⟩).result = .ok ⟨1, [], [65, 66, 67]⟩ ∧
      Base64.IsExact "QUJD".toList ∧
      String.ofList (Base64.encode .standard [65, 66, 67]) = "QUJD" := by
  have hm : (encode .text ⟨[], some "QUJD", 1⟩).result = .ok ⟨1, [], [65, 66, 67]⟩ := rfl
  have hx : Base64.IsExact "QUJD".toList := ⟨"QUJD".toList, [65, 66, 67], rfl, rfl⟩
  exact ⟨hm, hx, (encode_etag_kept_iff rfl (by decide) hm).1.mpr hx⟩

/-- Surplus pads and unused bits are accepted and lost: different etags have the same octets. -/
theorem encode_etag_merged :
    (encode .text ⟨[], some "QUJD====", 1⟩).result = .ok ⟨1, [], [65, 66, 67]⟩ ∧
      (encode .text ⟨[], some "QUJD", 1⟩).result = .ok ⟨1, [], [65, 66, 67]⟩ ∧
      (encode .text ⟨[], some "QR==", 1⟩).result = .ok ⟨1, [], [65]⟩ ∧
      (encode .text ⟨[], some "QQ==", 1⟩).result = .ok ⟨1, [], [65]⟩ ∧
      String.ofList (Base64.encode .standard [65, 66, 67]) = "QUJD" ∧
      String.ofList (Base64.encode .standard [65]) = "QQ==" :=
  ⟨rfl, rfl, rfl, rfl, rfl, rfl⟩

end AccessPolicy.Conversion
