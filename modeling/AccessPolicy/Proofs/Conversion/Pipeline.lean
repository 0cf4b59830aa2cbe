import AccessPolicy.Proofs.Conversion.ReadBack
import AccessPolicy.Proofs.Wire.Rereading
import AccessPolicy.RoundTrip
import Mathlib.Data.List.Sort

/-!
# From payload to payload

A message that is decoded and encoded again comes back in normal form: its roles are qualified, it
has no conditions, and the members of each binding strictly increase. The policy that it stands for
is the same as before, so a message in normal form passes through the whole pipeline unchanged.
-/

namespace AccessPolicy

namespace Wire.Binding

/-- Whether a wire binding is the normal form of another: it grants the completed role to the same
members, each listed once and in order, without a condition. -/
structure IsNormalOf (normal wire : Wire.Binding) : Prop where
  /-- The role is the one that the other role name means. -/
  role : (Role.ofName wire.role).name = some normal.role
  /-- There is no condition. -/
  condition : normal.condition = none
  /-- The members increase by code point. -/
  increasing : normal.members.Pairwise (· < ·)
  /-- The members are those of the other binding. -/
  mem_iff : ∀ text, text ∈ normal.members ↔ text ∈ wire.members

/-- Whether a wire binding is in normal form: it has no condition, its role name says where the
role is defined, and its members increase by code point. -/
structure IsNormal (wire : Wire.Binding) : Prop where
  /-- There is no condition. -/
  condition : wire.condition = none
  /-- The role name is complete. -/
  role : ∃ home ∈ ["roles/", "projects/", "organizations/"], home.toList <+: wire.role.toList
  /-- The members increase by code point. -/
  increasing : wire.members.Pairwise (· < ·)

/-- A normal form is the binding itself exactly when this is in normal form. -/
theorem IsNormalOf.eq_iff {normal wire : Wire.Binding} (h : normal.IsNormalOf wire) :
    normal = wire ↔ wire.IsNormal := by
  have hrole : normal.role = Role.qualify wire.role := (Option.some.inj h.role).symm
  constructor
  · intro he
    refine ⟨he ▸ h.condition, ?_, he ▸ h.increasing⟩
    rw [← Role.isQualified_iff, ← he, hrole]
    exact Role.isQualified_qualify wire.role
  · intro hn
    have hmembers : normal.members = wire.members :=
      h.increasing.eq_of_mem_iff hn.increasing h.mem_iff
    rw [Role.qualify, if_pos (Role.isQualified_iff.mpr hn.role)] at hrole
    have hcondition := h.condition.trans hn.condition.symm
    cases normal
    cases wire
    simp only at hrole hmembers hcondition
    rw [hrole, hmembers, hcondition]

/-- Normal forms are the bindings themselves exactly when all of these are in normal form. -/
theorem isNormalOf_eq_iff {normals wires : List Wire.Binding}
    (h : List.Forall₂ IsNormalOf normals wires) :
    normals = wires ↔ ∀ wire ∈ wires, wire.IsNormal := by
  induction h with
  | nil => simp only [List.not_mem_nil, false_implies, implies_true]
  | cons hfirst _ ih => rw [List.cons.injEq, List.forall_mem_cons, hfirst.eq_iff, ih]

end Wire.Binding

namespace Conversion

/-- Encoding what a wire binding is decoded to gives its normal form. -/
theorem isNormalOf_written {wire : Wire.Binding} {binding : Binding}
    (h : decodeBinding .canonical wire = .ok binding) :
    (binding.written Identity.text).IsNormalOf wire := by
  obtain ⟨read, hc, ht, rfl⟩ := decodeBinding_canonical_eq_ok_iff.mp h
  refine ⟨rfl, rfl, Binding.increasing_members_written _, fun text => ?_⟩
  simp only [Binding.mem_members_written, ht, List.mem_map, mem_members_granted]

/-- Nothing is lost of a policy that was decoded when it is written and read back. -/
theorem carried_of_decode {message : Wire.Message} {policy : Policy}
    (h : (decode .canonical message).result = .ok policy) :
    policy.IsCanonical ∧ policy.carried message.etag = policy := by
  obtain ⟨hb, hp, he, _⟩ := decode_eq_ok_iff.mp h
  have hgranted : ∀ binding ∈ policy.bindings, ∃ role read,
      (∀ identity ∈ read, identity.IsCanonical) ∧ binding = granted role read := by
    intro binding hm
    obtain ⟨wire, _, hw⟩ := exists_of_mem_of_mapM_eq_ok hb hm
    obtain ⟨read, hc, _, hg⟩ := decodeBinding_canonical_eq_ok_iff.mp hw
    exact ⟨wire.role, read, hc, hg⟩
  constructor
  · intro binding hm identity hi
    obtain ⟨role, read, hc, rfl⟩ := hgranted binding hm
    exact hc identity (mem_members_granted.mp hi)
  · refine (carried_eq_iff hp).mpr ⟨fun binding hm => ?_, he.symm⟩
    obtain ⟨role, read, _, rfl⟩ := hgranted binding hm
    exact ⟨rfl, Role.isQualified_qualify role⟩

/-- Encoding what a message is decoded to gives its parts, the bindings in normal form. -/
theorem encode_of_decode {message : Wire.Message} {policy : Policy}
    (h : (decode .canonical message).result = .ok policy) :
    ∃ bindings, (encode .text policy).result = .ok ⟨message.version, bindings, message.etag⟩ ∧
      List.Forall₂ Wire.Binding.IsNormalOf bindings message.bindings := by
  obtain ⟨hb, _, he, hv⟩ := decode_eq_ok_iff.mp h
  refine ⟨policy.bindings.map (Binding.written Identity.text), ?_, ?_⟩
  · rw [encode_text_eq_ok_iff, he, encodeEtag_decodeEtag]
    exact ⟨rfl, hv.symm, rfl⟩
  · rw [List.forall₂_map_left_iff]
    exact (mapM_eq_ok_iff.mp hb).flip.imp fun _ _ hw => isNormalOf_written hw

end Conversion

open Conversion

/-- A round trip compares what it meets on its way. -/
theorem RoundTrip.ofPayload_eq {payload : Wire.Payload} {message encoded reread : Wire.Message}
    {policy again : Policy} (hm : receive payload = .ok message)
    (hp : (decode .canonical message).result = .ok policy)
    (he : (encode .text policy).result = .ok encoded)
    (hr : receive (.text encoded.toJson) = .ok reread)
    (ha : (decode .canonical reread).result = .ok again) :
    ofPayload payload = .ok ⟨policy, encoded.toJson, encoded == message, again == policy⟩ := by
  simp only [ofPayload, bind, Except.bind, hm, hp, he, hr, ha]
  rfl

/-- A message that is received and decoded can be encoded again. What is encoded has its version
and its etag and the normal forms of its bindings; its text leads to the same policy, and passing
through the pipeline once more leaves this text as it is. -/
theorem receive_encoded {payload : Wire.Payload} {message : Wire.Message}
    (hm : receive payload = .ok message) {policy : Policy}
    (hp : (decode .canonical message).result = .ok policy) :
    ∃ encoded, (encode .text policy).result = .ok encoded ∧
      encoded.version = message.version ∧ encoded.etag = message.etag ∧
      List.Forall₂ Wire.Binding.IsNormalOf encoded.bindings message.bindings ∧
      (∃ reread, receive (.text encoded.toJson) = .ok reread ∧
        (decode .canonical reread).result = .ok policy) ∧
      (encoded = message ↔ ∀ wire ∈ message.bindings, wire.IsNormal) ∧
      RoundTrip.ofPayload payload =
        .ok ⟨policy, encoded.toJson, decide (encoded = message), true⟩ ∧
      RoundTrip.ofPayload (.text encoded.toJson) = .ok ⟨policy, encoded.toJson, true, true⟩ := by
  -- The normal form of the message leads to the same policy, so the second round is the first one
  -- over again.
  obtain ⟨bindings, hencode, hnormal⟩ := encode_of_decode hp
  obtain ⟨hcanonical, hcarried⟩ := carried_of_decode hp
  obtain ⟨_, hcomplete, _⟩ := decode_eq_ok_iff.mp hp
  have hversion := Wire.Message.length_integer_version_le (mapError_eq_ok_iff.mp hm)
  have hreread : receive (.text (Wire.Message.toJson ⟨message.version, bindings, message.etag⟩)) =
      .ok ⟨message.version, bindings, message.etag⟩ :=
    mapError_eq_ok_iff.mpr (Wire.Message.ofJson_toJson_of_short hversion)
  have hagain := (decode_encoded_eq_ok_iff hcomplete hencode).mpr ⟨hcanonical, hcarried.symm⟩
  refine ⟨_, hencode, rfl, rfl, hnormal, ⟨_, hreread, hagain⟩, ?_, ?_, ?_⟩
  · rw [← Wire.Binding.isNormalOf_eq_iff hnormal]
    constructor
    · intro he
      exact congrArg Wire.Message.bindings he
    · intro he
      rw [he]
  · rw [RoundTrip.ofPayload_eq hm hp hencode hreread hagain, beq_self_eq_true]
    rfl
  · rw [RoundTrip.ofPayload_eq hreread hagain hencode hreread hagain, beq_self_eq_true,
      beq_self_eq_true]

/-- A payload with a short role name, a repeated member, a condition and a URL-safe etag. -/
private def untidy : Wire.Payload :=
  .text ("\x7b\"bindings\": [\x7b\"role\": \"viewer\", \"members\": [\"user:a\", \"allUsers\", " ++
    "\"user:a\"], \"condition\": \x7b\x7d\x7d], \"etag\": \"-_8\", \"version\": 1\x7d")

/-- The message in the untidy payload. -/
private def untidyMessage : Wire.Message :=
  ⟨1, [⟨"viewer", ["user:a", "allUsers", "user:a"], some {}⟩], [0xfb, 0xff]⟩

/-- The untidy payload is not reproduced, but its text after one round trip is. -/
theorem receive_encoded_untidy :
    receive untidy = .ok untidyMessage ∧ ∃ policy encoded,
      (decode .canonical untidyMessage).result = .ok policy ∧
      (encode .text policy).result = .ok encoded ∧
      RoundTrip.ofPayload untidy = .ok ⟨policy, encoded.toJson, false, true⟩ ∧
      RoundTrip.ofPayload (.text encoded.toJson) = .ok ⟨policy, encoded.toJson, true, true⟩ := by
  have hm : receive untidy = .ok untidyMessage := by decide +kernel
  have hp : (decode .canonical untidyMessage).result = .ok
      ⟨[granted "viewer" [⟨.user, some "a"⟩, ⟨.allUsers, none⟩, ⟨.user, some "a"⟩]],
        some "+/8=", 1⟩ := rfl
  obtain ⟨encoded, he, _, _, _, _, hsame, hfirst, hsecond⟩ := receive_encoded hm hp
  have hne : encoded ≠ untidyMessage := by
    intro h
    have hnormal := hsame.mp h _ List.mem_cons_self
    cases hnormal.condition
  rw [decide_eq_false hne] at hfirst
  exact ⟨hm, _, encoded, hp, he, hfirst, hsecond⟩

end AccessPolicy
