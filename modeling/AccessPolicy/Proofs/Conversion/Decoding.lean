import AccessPolicy.Conversion
import AccessPolicy.Proofs.Identity.Reading
import AccessPolicy.Proofs.Policy.Checking

/-!
# What is decoded

Reading canonical texts, a wire binding is decoded exactly when its members are the texts of
canonical identities, and then it grants its qualified role to these identities without a
condition. Nothing else can go wrong: what is decoded is complete, so the only failure of decoding
is a member that cannot be read.
-/

namespace AccessPolicy.Conversion

/-- Texts are read exactly as the canonical identities that they are the texts of. -/
theorem mapM_canonical_eq_ok_iff {texts : List String} {identities : List (Option Identity)} :
    texts.mapM Parse.canonical = .ok identities ↔
      ∃ read : List Identity, identities = read.map some ∧
        (∀ identity ∈ read, identity.IsCanonical) ∧ texts = read.map Identity.text := by
  rw [mapM_eq_ok_iff]
  constructor
  · intro h
    induction h with
    | nil => exact ⟨[], rfl, fun _ hm => absurd hm List.not_mem_nil, rfl⟩
    | cons hd _ ih =>
      obtain ⟨read, rfl, hc, rfl⟩ := ih
      obtain ⟨identity, ho, rfl⟩ := map_eq_ok_iff.mp hd
      obtain ⟨hi, rfl⟩ := Identity.of_ofText_eq_ok ho
      exact ⟨identity :: read, rfl, List.forall_mem_cons.mpr ⟨hi, hc⟩, rfl⟩
  · rintro ⟨read, rfl, hc, rfl⟩
    rw [List.forall₂_map_left_iff, List.forall₂_map_right_iff, List.forall₂_same]
    intro identity hm
    exact map_eq_ok_iff.mpr ⟨identity, Identity.ofText_text (hc identity hm), rfl⟩

/-- Texts of canonical identities are the texts of a list of these. -/
theorem exists_read {texts : List String}
    (h : ∀ text ∈ texts, ∃ identity : Identity, identity.IsCanonical ∧ identity.text = text) :
    ∃ read : List Identity, (∀ identity ∈ read, identity.IsCanonical) ∧
      texts = read.map Identity.text := by
  induction texts with
  | nil => exact ⟨[], fun _ hm => absurd hm List.not_mem_nil, rfl⟩
  | cons text rest ih =>
    rw [List.forall_mem_cons] at h
    obtain ⟨identity, hi, rfl⟩ := h.1
    obtain ⟨read, hc, rfl⟩ := ih h.2
    exact ⟨identity :: read, List.forall_mem_cons.mpr ⟨hi, hc⟩, rfl⟩

/-- The binding that grants a role to identities without a condition. -/
def granted (role : String) (identities : List Identity) : Binding :=
  ⟨some (Role.ofName role), some (OrderedSet.ofList (identities.map some)), none⟩

/-- What is granted to identities is complete. -/
theorem granted_isComplete (role : String) (identities : List Identity) :
    (granted role identities).IsComplete := by
  refine ⟨rfl, _, rfl, fun hm => ?_⟩
  obtain ⟨identity, _, he⟩ := List.mem_map.mp (OrderedSet.mem_ofList.mp hm)
  cases he

/-- The members of what is granted to identities are these identities. -/
@[simp] theorem mem_members_granted {role : String} {identities : List Identity}
    {identity : Identity} :
    identity ∈ (granted role identities).members ↔ identity ∈ identities := by
  simp only [granted, Binding.members, List.mem_filterMap, id_eq, exists_eq_right,
    ← OrderedSet.mem_iff, OrderedSet.mem_ofList, List.mem_map, Option.some.injEq, exists_eq_right]

/-- A wire binding is decoded exactly as the grant to the canonical identities of its members. -/
theorem decodeBinding_canonical_eq_ok_iff {wire : Wire.Binding} {binding : Binding} :
    decodeBinding .canonical wire = .ok binding ↔
      ∃ read : List Identity, (∀ identity ∈ read, identity.IsCanonical) ∧
        wire.members = read.map Identity.text ∧ binding = granted wire.role read := by
  rw [decodeBinding, map_eq_ok_iff]
  constructor
  · rintro ⟨identities, hm, rfl⟩
    obtain ⟨read, rfl, hc, ht⟩ := mapM_canonical_eq_ok_iff.mp hm
    exact ⟨read, hc, ht, rfl⟩
  · rintro ⟨read, hc, ht, rfl⟩
    exact ⟨read.map some, mapM_canonical_eq_ok_iff.mpr ⟨read, rfl, hc, ht⟩, rfl⟩

/-- A message is decoded exactly when its bindings are and nothing is missing in them. -/
theorem decode_eq_ok_iff {parse : Parse} {message : Wire.Message} {policy : Policy} :
    (decode parse message).result = .ok policy ↔
      message.bindings.mapM (decodeBinding parse) = .ok policy.bindings ∧ policy.IsComplete ∧
        policy.etag = decodeEtag message.etag ∧ policy.version = message.version := by
  unfold decode
  cases hb : message.bindings.mapM (decodeBinding parse) with
  | error unreadable =>
    constructor
    · intro h
      cases h
    · rintro ⟨h, _⟩
      cases h
  | ok bindings =>
    simp only
    rw [mapError_eq_ok_iff, Policy.construct_eq_ok_iff, Option.some.injEq, Except.ok.injEq,
      (List.map_injective_iff.mpr (fun _ _ => Option.some.inj)).eq_iff]

/-- Decoding canonical texts fails only because of a text that cannot be read. -/
theorem decode_canonical_eq_error {message : Wire.Message} {fault : Fault}
    (h : (decode .canonical message).result = .error fault) :
    ∃ unreadable, fault = .unreadable unreadable := by
  unfold decode at h
  cases hb : message.bindings.mapM (decodeBinding .canonical) with
  | error unreadable =>
    rw [hb] at h
    exact ⟨unreadable, (Except.error.inj h).symm⟩
  | ok bindings =>
    have hc : ∀ binding ∈ bindings, binding.IsComplete := by
      intro binding hm
      obtain ⟨wire, _, hw⟩ := exists_of_mem_of_mapM_eq_ok hb hm
      obtain ⟨read, _, _, rfl⟩ := decodeBinding_canonical_eq_ok_iff.mp hw
      exact granted_isComplete wire.role read
    rw [hb] at h
    simp only [Policy.construct, checkedBindings, completeBindings_of_complete hc, Except.map,
      Except.mapError, reduceCtorEq] at h

end AccessPolicy.Conversion
