import AccessPolicy.Proofs.Base64.Padded
import AccessPolicy.Proofs.Conversion.EtagReaders

/-!
# Padded etags

The etag of a policy is meant to be padded Base64. Such an etag is encoded to octets whose bits are
those of its digits, and any other is reported, with one exception: pads behind complete groups are
read over, so such an etag is encoded like the one without them.
-/

namespace AccessPolicy.Conversion

open Base64

/-- With the texts of the identities, a policy with an etag is encoded with the octets that the
strict reader finds in it, and otherwise the etag is reported. -/
theorem encode_text_of_etag {policy : Policy} {etag : String} (hetag : policy.etag = some etag) :
    (encode .text policy).result =
      match decodeStrict? etag.toList with
      | some octets =>
        .ok ⟨policy.version, policy.bindings.map (Binding.written Identity.text), octets⟩
      | none => .error (.etag etag) := by
  obtain ⟨bindings, _, version⟩ := policy
  subst hetag
  exact encode_etag Identity.text bindings etag version

/-- A policy with a padded etag is encoded, and the bits of its octets are those of the digits:
three octets for every group of four, but for one less with each pad. A policy with pads behind
complete groups is encoded like the one without them, and any other is refused with a report that
quotes the etag. So exactly these pads keep encoding from accepting the padded etags and no
others. -/
theorem encode_padded_etag {policy : Policy} {etag : String} (hetag : policy.etag = some etag) :
    let result := (encode .text policy).result
    let padded := ∃ digits pads, IsPadded digits pads ∧ etag.toList = withPads digits pads
    let overpadded := ∃ digits pads, IsOverpadded digits pads ∧ etag.toList = withPads digits pads
    (((∃ message, result = .ok message) ↔ padded) ↔ ¬overpadded) ∧
    (∀ digits pads, IsPadded digits pads → etag.toList = withPads digits pads →
      ∃ message, result = .ok message ∧ message.etag.length + pads = 3 * (etag.length / 4) ∧
        octetBits message.etag <+: sextetBits (digits.map figures.idxOf)) ∧
    (∀ digits pads, IsOverpadded digits pads → etag.toList = withPads digits pads →
      ∃ message, result = .ok message ∧
        (encode .text { policy with etag := some (String.ofList digits) }).result = .ok message) ∧
    (¬padded → ¬overpadded → result = .error (.etag etag)) ∧
    (Fault.etag etag).message = "etag is not valid base64: " ++ Text.quoted etag := by
  intro result padded overpadded
  have hresult : result = _ := encode_text_of_etag hetag
  have haccepted : ∀ digits pads, IsPadded digits pads → etag.toList = withPads digits pads →
      ∃ message, result = .ok message ∧ message.etag.length + pads = 3 * (etag.length / 4) ∧
        octetBits message.etag <+: sextetBits (digits.map figures.idxOf) := by
    intro digits pads hp he
    obtain ⟨octets, ho, hlength, hbits⟩ := exists_decodeStrict?_of_isPadded hp
    rw [← he] at ho hlength
    rw [String.length_toList] at hlength
    refine ⟨⟨policy.version, policy.bindings.map (Binding.written Identity.text), octets⟩, ?_,
      hlength, hbits⟩
    rw [hresult, ho]
  have hsurplus : ∀ digits pads, IsOverpadded digits pads → etag.toList = withPads digits pads →
      ∃ message, result = .ok message ∧ (encode .text
        { policy with etag := some (String.ofList digits) }).result = .ok message := by
    intro digits pads hp he
    have hdigits : IsPadded digits 0 := ⟨hp.mem_figures, Nat.zero_le 2, hp.complete⟩
    obtain ⟨octets, ho, _⟩ := exists_decodeStrict?_of_isPadded hdigits
    rw [withPads, List.replicate_zero, List.append_nil] at ho
    refine ⟨⟨policy.version, policy.bindings.map (Binding.written Identity.text), octets⟩, ?_, ?_⟩
    · rw [hresult, he, decodeStrict?_of_isOverpadded hp, ho]
    · rw [encode_text_of_etag rfl, String.toList_ofList, ho]
  have hrefused : ¬padded → ¬overpadded → result = .error (.etag etag) := by
    intro hnp hno
    have hnone : decodeStrict? etag.toList = none := decodeStrict?_eq_none_iff.mpr
      fun digits pads he => ⟨fun hp => hnp ⟨digits, pads, hp, he⟩,
        fun hp => hno ⟨digits, pads, hp, he⟩⟩
    rw [hresult, hnone]
  refine ⟨?_, haccepted, hsurplus, hrefused, rfl⟩
  constructor
  · rintro hiff ⟨digits, pads, ho, he⟩
    obtain ⟨message, hmessage, _⟩ := hsurplus digits pads ho he
    obtain ⟨digits', pads', hp, he'⟩ := hiff.mp ⟨message, hmessage⟩
    exact hp.not_isOverpadded (he'.symm.trans he) ho
  · intro hno
    constructor
    · rintro ⟨message, hmessage⟩
      by_contra hnp
      rw [hrefused hnp hno] at hmessage
      cases hmessage
    · rintro ⟨digits, pads, hp, he⟩
      obtain ⟨message, hmessage, _⟩ := haccepted digits pads hp he
      exact ⟨message, hmessage⟩

/-- A policy without bindings. -/
private def stamped (etag : String) : Policy := ⟨[], some etag, 1⟩

/-- Four digits are a complete group, with no use for a pad. -/
private theorem isOverpadded_abc : IsOverpadded "QUJD".toList 1 :=
  ⟨mem_figures_of_all (by decide), by decide, by decide, by decide⟩

/-- Six digits with two pads are encoded to four octets that start with the bits of the first digit,
four digits with a pad to what the digits alone are, and three digits without a pad are refused. -/
theorem encode_padded_etag_abcd :
    ((stamped "QUJDRA==").etag = some "QUJDRA==" ∧
      IsPadded "QUJDRA".toList 2 ∧ "QUJDRA==".toList = withPads "QUJDRA".toList 2 ∧
      (encode .text (stamped "QUJDRA==")).result = .ok ⟨1, [], [65, 66, 67, 68]⟩ ∧
      octetBits [65, 66, 67, 68] <+: sextetBits [16, 20, 9, 3, 17, 0]) ∧
    (IsOverpadded "QUJD".toList 1 ∧ "QUJD=".toList = withPads "QUJD".toList 1 ∧
      ∃ message, (encode .text (stamped "QUJD=")).result = .ok message ∧
        (encode .text (stamped "QUJD")).result = .ok message) ∧
    ((¬∃ digits pads, IsPadded digits pads ∧ "QUI".toList = withPads digits pads) ∧
      (¬∃ digits pads, IsOverpadded digits pads ∧ "QUI".toList = withPads digits pads) ∧
      (encode .text (stamped "QUI")).result = .error (.etag "QUI") ∧
      (Fault.etag "QUI").message = "etag is not valid base64: 'QUI'") := by
  have hfull : IsPadded "QUJDRA".toList 2 := ⟨mem_figures_of_all (by decide), by decide, by decide⟩
  have hover := isOverpadded_abc
  have hdigits : "QUI".toList = withPads "QUI".toList 0 := rfl
  have hmem : ∀ c ∈ "QUI".toList, c ∈ figures := mem_figures_of_all (by decide)
  have hnp : ¬∃ digits pads, IsPadded digits pads ∧ "QUI".toList = withPads digits pads := by
    rintro ⟨digits, pads, hp, he⟩
    obtain ⟨rfl, rfl⟩ := withPads_inj hp.mem_figures hmem (he.symm.trans hdigits)
    exact absurd hp.complete (by decide)
  have hno : ¬∃ digits pads, IsOverpadded digits pads ∧ "QUI".toList = withPads digits pads := by
    rintro ⟨digits, pads, hp, he⟩
    obtain ⟨rfl, rfl⟩ := withPads_inj hp.mem_figures hmem (he.symm.trans hdigits)
    exact absurd hp.pads_pos (by decide)
  have hetag (etag : String) : (stamped etag).etag = some etag := rfl
  obtain ⟨_, haccepted, _⟩ := encode_padded_etag (hetag "QUJDRA==")
  obtain ⟨_, _, hsurplus, _⟩ := encode_padded_etag (hetag "QUJD=")
  obtain ⟨_, _, _, hrefused, hmessage⟩ := encode_padded_etag (hetag "QUI")
  obtain ⟨message, hresult, _, hbits⟩ := haccepted _ _ hfull rfl
  have habcd : (encode .text (stamped "QUJDRA==")).result = .ok ⟨1, [], [65, 66, 67, 68]⟩ := rfl
  rw [habcd, Except.ok.injEq] at hresult
  subst hresult
  exact ⟨⟨rfl, hfull, rfl, habcd, hbits⟩, ⟨hover, rfl, hsurplus _ _ hover rfl⟩,
    hnp, hno, hrefused hnp hno, hmessage⟩

/-- A pad behind a complete group is accepted, although there is no group for it to complete. -/
theorem encode_overpadded_etag :
    (encode .text (stamped "QUJD=")).result = .ok ⟨1, [], [65, 66, 67]⟩ ∧
      ¬∃ digits pads, IsPadded digits pads ∧ "QUJD=".toList = withPads digits pads := by
  refine ⟨rfl, ?_⟩
  rintro ⟨digits, pads, hp, he⟩
  exact hp.not_isOverpadded (he.symm.trans (by decide)) isOverpadded_abc

end AccessPolicy.Conversion
