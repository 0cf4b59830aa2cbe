import AccessPolicy.Proofs.Conversion.Decoding
import AccessPolicy.Proofs.Conversion.Encoding

/-!
# Reading back what was written

A policy that is encoded and decoded again comes back exactly when all its identities are
canonical. No text stands for two identities, so an identity that is not canonical makes decoding
fail and is never taken for another one. What comes back has qualified roles, no conditions and the
etag that its octets stand for; nothing else is lost.
-/

namespace AccessPolicy

/-- What is left of a binding that was written and read back. -/
def Binding.carried (binding : Binding) : Binding :=
  ⟨binding.roleName?.map Role.ofName, binding.identities, none⟩

/-- The role name of a complete binding is there. -/
theorem Binding.IsComplete.roleName?_eq {binding : Binding} (h : binding.IsComplete) :
    binding.roleName? = some binding.roleName := by
  obtain ⟨name, hn⟩ := Option.isSome_iff_exists.mp h.1
  rw [roleName, hn]
  rfl

/-- A complete binding is left as it was exactly when its role is qualified and it has no
condition. -/
theorem Binding.carried_eq_iff {binding : Binding} (h : binding.IsComplete) :
    binding.carried = binding ↔
      binding.condition = none ∧ Role.isQualified binding.roleName = true := by
  have hn := h.roleName?_eq
  obtain ⟨role, identities, condition⟩ := binding
  obtain ⟨⟨name⟩, rfl, hname⟩ := Option.bind_eq_some_iff.mp hn
  have hq : Role.qualify (roleName ⟨some ⟨name⟩, identities, condition⟩) =
      roleName ⟨some ⟨name⟩, identities, condition⟩ ↔
        Role.isQualified (roleName ⟨some ⟨name⟩, identities, condition⟩) = true := by
    constructor
    · intro he
      rw [← he]
      exact Role.isQualified_qualify _
    · intro he
      rw [Role.qualify, if_pos he]
  simp only at hname
  rw [carried, hn, ← hq, mk.injEq, Option.map_some, Option.some.injEq, Role.ofName, Role.mk.injEq,
    hname, Option.some.injEq]
  constructor
  · rintro ⟨hr, _, rfl⟩
    exact ⟨rfl, hr⟩
  · rintro ⟨rfl, hr⟩
    exact ⟨hr, rfl, rfl⟩

/-- Whether every identity of a policy is canonical. -/
def Policy.IsCanonical (policy : Policy) : Prop :=
  ∀ binding ∈ policy.bindings, ∀ identity ∈ binding.members, identity.IsCanonical

instance (policy : Policy) : Decidable policy.IsCanonical :=
  inferInstanceAs (Decidable (∀ binding ∈ policy.bindings, ∀ identity ∈ binding.members,
    identity.IsCanonical))

/-- What is left of a policy that was written with an etag and read back. -/
def Policy.carried (policy : Policy) (octets : List UInt8) : Policy :=
  ⟨policy.bindings.map Binding.carried, Conversion.decodeEtag octets, policy.version⟩

namespace Conversion

/-- What is granted to the members of a complete binding is what is left of the binding. -/
private theorem granted_eq_carried {binding : Binding} (hb : binding.IsComplete)
    {read : List Identity} (hr : ∀ identity, identity ∈ read ↔ identity ∈ binding.members) :
    granted binding.roleName read = binding.carried := by
  obtain ⟨identities, he, hn⟩ := hb.2
  rw [Option.mem_def] at he
  have hs : OrderedSet.ofList (read.map some) = identities := by
    refine OrderedSet.ext fun member => ?_
    rw [OrderedSet.mem_ofList, List.mem_map]
    cases member with
    | none =>
      constructor
      · rintro ⟨_, _, h⟩
        cases h
      · exact fun h => absurd h hn
    | some identity =>
      simp only [Option.some.injEq, exists_eq_right, hr, Binding.mem_members, he, Option.mem_def,
        exists_eq_left']
  rw [granted, hs, Binding.carried, hb.roleName?_eq, he, Option.map_some]

/-- A complete binding is read back exactly when its identities are canonical. -/
theorem decodeBinding_written_eq_ok_iff {binding back : Binding} (hb : binding.IsComplete) :
    decodeBinding .canonical (binding.written Identity.text) = .ok back ↔
      (∀ identity ∈ binding.members, identity.IsCanonical) ∧ back = binding.carried := by
  have hmem (read : List Identity)
      (ht : (binding.written Identity.text).members = read.map Identity.text)
      (identity : Identity) : identity ∈ read ↔ identity ∈ binding.members := by
    rw [← List.mem_map_of_injective Identity.text_injective, ← ht, Binding.mem_members_written,
      List.mem_map_of_injective Identity.text_injective]
  rw [decodeBinding_canonical_eq_ok_iff]
  constructor
  · rintro ⟨read, hc, ht, rfl⟩
    refine ⟨fun identity hi => hc identity ((hmem read ht identity).mpr hi), ?_⟩
    exact granted_eq_carried hb (hmem read ht)
  · rintro ⟨hc, rfl⟩
    have htexts : ∀ text ∈ (binding.written Identity.text).members,
        ∃ identity : Identity, identity.IsCanonical ∧ identity.text = text := by
      intro text hm
      obtain ⟨identity, hi, rfl⟩ := List.mem_map.mp (Binding.mem_members_written.mp hm)
      exact ⟨identity, hc identity hi, rfl⟩
    obtain ⟨read, hr, ht⟩ := exists_read htexts
    exact ⟨read, hr, ht, (granted_eq_carried hb (hmem read ht)).symm⟩

/-- Complete bindings are read back exactly when all their identities are canonical. -/
theorem mapM_decodeBinding_written_eq_ok_iff {bindings back : List Binding}
    (hb : ∀ binding ∈ bindings, binding.IsComplete) :
    (bindings.map (Binding.written Identity.text)).mapM (decodeBinding .canonical) = .ok back ↔
      (∀ binding ∈ bindings, ∀ identity ∈ binding.members, identity.IsCanonical) ∧
        back = bindings.map Binding.carried := by
  rw [mapM_eq_ok_iff, List.forall₂_map_left_iff]
  induction bindings generalizing back with
  | nil => simp only [List.forall₂_nil_left_iff, List.not_mem_nil, false_implies, implies_true,
      true_and, List.map_nil]
  | cons binding rest ih =>
    rw [List.forall_mem_cons] at hb
    rw [List.forall₂_cons_left_iff, List.forall_mem_cons, List.map_cons]
    constructor
    · rintro ⟨first, others, hf, ho, rfl⟩
      obtain ⟨hc, rfl⟩ := (decodeBinding_written_eq_ok_iff hb.1).mp hf
      obtain ⟨hr, rfl⟩ := (ih hb.2).mp ho
      exact ⟨⟨hc, hr⟩, rfl⟩
    · rintro ⟨⟨hc, hr⟩, rfl⟩
      exact ⟨binding.carried, rest.map Binding.carried,
        (decodeBinding_written_eq_ok_iff hb.1).mpr ⟨hc, rfl⟩, (ih hb.2).mpr ⟨hr, rfl⟩, rfl⟩

/-- A complete policy is read back exactly when it is canonical, as what is left of it. -/
theorem decode_encoded_eq_ok_iff {policy back : Policy} (hp : policy.IsComplete)
    {message : Wire.Message} (hm : (encode .text policy).result = .ok message) :
    (decode .canonical message).result = .ok back ↔
      policy.IsCanonical ∧ back = policy.carried message.etag := by
  obtain ⟨_, hv, hb⟩ := encode_text_eq_ok_iff.mp hm
  rw [decode_eq_ok_iff, hb, mapM_decodeBinding_written_eq_ok_iff hp, hv]
  constructor
  · rintro ⟨⟨hc, hbs⟩, _, he, hv⟩
    refine ⟨hc, ?_⟩
    rw [Policy.carried, ← hbs, ← he, ← hv]
  · rintro ⟨hc, rfl⟩
    refine ⟨⟨hc, rfl⟩, ?_, rfl, rfl⟩
    rintro binding hm
    obtain ⟨source, hs, rfl⟩ := List.mem_map.mp hm
    have h := hp source hs
    refine ⟨?_, h.2⟩
    rw [Binding.carried, h.roleName?_eq]
    rfl

/-- The octets of an etag that is there are what the strict reader makes of it. -/
theorem encodeEtag_some_eq_ok_iff {text : String} {octets : List UInt8} :
    encodeEtag (some text) = .ok octets ↔ Base64.decodeStrict? text.toList = some octets :=
  encodeEtag_eq_ok_iff

/-- An etag is what its octets are decoded to exactly when it is absent, or not empty and the text
of the octets that it is read as. -/
theorem decodeEtag_eq_iff {etag : Option String} {octets : List UInt8}
    (h : encodeEtag etag = .ok octets) :
    decodeEtag octets = etag ↔ etag = none ∨ ∃ text read, etag = some text ∧ text ≠ "" ∧
      Base64.decodeStrict? text.toList = some read ∧
      String.ofList (Base64.encode .standard read) = text := by
  cases etag with
  | none =>
    cases h
    exact ⟨fun _ => Or.inl rfl, fun _ => rfl⟩
  | some text =>
    have hd := encodeEtag_some_eq_ok_iff.mp h
    have hempty : String.ofList (Base64.encode .standard octets) = "" ↔ octets = [] := by
      rw [← String.toList_eq_nil_iff, String.toList_ofList, Base64.encode_eq_nil_iff]
    rw [decodeEtag]
    constructor
    · intro he
      split at he
      · cases he
      · rename_i hne
        rw [Option.some.injEq] at he
        refine Or.inr ⟨text, octets, rfl, fun ht => hne ?_, hd, he⟩
        rw [List.isEmpty_iff, ← hempty, he, ht]
    · rintro (he | ⟨_, read, he, hne, hr, ht⟩)
      · cases he
      · cases he
        rw [hd, Option.some.injEq] at hr
        subst hr
        have ho : ¬octets.isEmpty = true := by
          rw [List.isEmpty_iff, ← hempty, ht]
          exact hne
        rw [if_neg ho, ht]

/-- A complete policy is left as it was exactly when its roles are qualified, it has no conditions
and its etag is what the octets are decoded to. -/
theorem carried_eq_iff {policy : Policy} (hp : policy.IsComplete) {octets : List UInt8} :
    policy.carried octets = policy ↔
      (∀ binding ∈ policy.bindings, binding.condition = none ∧
        Role.isQualified binding.roleName = true) ∧ decodeEtag octets = policy.etag := by
  have hb : policy.bindings.map Binding.carried = policy.bindings ↔
      ∀ binding ∈ policy.bindings, binding.condition = none ∧
        Role.isQualified binding.roleName = true := by
    constructor
    · intro h binding hm
      rw [← Binding.carried_eq_iff (hp binding hm)]
      exact List.map_inj_left.mp (h.trans (List.map_id _).symm) binding hm
    · intro h
      refine (List.map_inj_left.mpr fun binding hm => ?_).trans (List.map_id _)
      exact (Binding.carried_eq_iff (hp binding hm)).mpr (h binding hm)
  rw [← hb]
  constructor
  · intro h
    exact ⟨congrArg Policy.bindings h, congrArg Policy.etag h⟩
  · rintro ⟨hbs, he⟩
    rw [Policy.carried, hbs, he]

/-- A written policy cannot be read back exactly when an identity in it is not canonical. Otherwise
it loses its conditions, the short names of its roles and the spelling of its etag, and nothing
else. -/
theorem decode_encoded {policy : Policy} (hp : policy.IsComplete) {message : Wire.Message}
    (hm : (encode .text policy).result = .ok message) :
    (¬policy.IsCanonical →
      ∃ unreadable, (decode .canonical message).result = .error (.unreadable unreadable)) ∧
    (policy.IsCanonical → (decode .canonical message).result = .ok
      ⟨policy.bindings.map Binding.carried,
        if message.etag = [] then none
          else some (String.ofList (Base64.encode .standard message.etag)),
        policy.version⟩) ∧
    ((decode .canonical message).result = .ok policy ↔
      policy.IsCanonical ∧
      (∀ binding ∈ policy.bindings,
        binding.condition = none ∧ Role.isQualified binding.roleName = true) ∧
      (policy.etag = none ∨ ∃ text octets, policy.etag = some text ∧ text ≠ "" ∧
        Base64.decodeStrict? text.toList = some octets ∧
        String.ofList (Base64.encode .standard octets) = text)) := by
  have hback : ∀ back, (decode .canonical message).result = .ok back ↔
      policy.IsCanonical ∧ back = policy.carried message.etag :=
    fun _ => decode_encoded_eq_ok_iff hp hm
  refine ⟨?_, ?_, ?_⟩
  · intro hc
    cases hr : (decode .canonical message).result with
    | error fault =>
      obtain ⟨unreadable, rfl⟩ := decode_canonical_eq_error hr
      exact ⟨unreadable, rfl⟩
    | ok back => exact absurd ((hback back).mp hr).1 hc
  · intro hc
    rw [(hback _).mpr ⟨hc, rfl⟩]
    simp only [Policy.carried, decodeEtag, List.isEmpty_iff]
  · obtain ⟨he, _⟩ := encode_text_eq_ok_iff.mp hm
    rw [hback, eq_comm (a := policy), carried_eq_iff hp, decodeEtag_eq_iff he]

/-- The identity set of everyone and of one user. -/
private def everyoneAnd (user : String) : IdentitySet :=
  OrderedSet.ofList [some ⟨.user, some user⟩, some ⟨.allUsers, none⟩]

/-- A role with a short name, a condition and an etag with unused bits set are not read back as
they were. -/
theorem decode_encoded_viewer :
    Policy.IsComplete ⟨[⟨some ⟨some "viewer"⟩, some (everyoneAnd "a"), some {}⟩], some "QR==", 1⟩ ∧
    (encode .text
      ⟨[⟨some ⟨some "viewer"⟩, some (everyoneAnd "a"), some {}⟩], some "QR==", 1⟩).result =
        .ok ⟨1, [⟨"viewer", ["allUsers", "user:a"], none⟩], [65]⟩ ∧
    (decode .canonical ⟨1, [⟨"viewer", ["allUsers", "user:a"], none⟩], [65]⟩).result =
      .ok ⟨[⟨some ⟨some "roles/viewer"⟩, some (everyoneAnd "a"), none⟩], some "QQ==", 1⟩ := by
  have hp : Policy.IsComplete
      ⟨[⟨some ⟨some "viewer"⟩, some (everyoneAnd "a"), some {}⟩], some "QR==", 1⟩ := by decide
  have hm : (encode .text
      ⟨[⟨some ⟨some "viewer"⟩, some (everyoneAnd "a"), some {}⟩], some "QR==", 1⟩).result =
        .ok ⟨1, [⟨"viewer", ["allUsers", "user:a"], none⟩], [65]⟩ := by
    have hsorted : ["allUsers", "user:a"].mergeSort (fun a b => decide (a ≤ b)) =
        ["allUsers", "user:a"] := List.mergeSort_of_pairwise (by decide)
    have hw : Binding.written Identity.text
        ⟨some ⟨some "viewer"⟩, some (everyoneAnd "a"), some {}⟩ =
          ⟨"viewer", ["allUsers", "user:a"], none⟩ :=
      congrArg (fun members => (⟨"viewer", members, none⟩ : Wire.Binding)) hsorted
    rw [encode_text_eq_ok_iff, List.map_singleton, hw]
    exact ⟨rfl, rfl, rfl⟩
  refine ⟨hp, hm, ?_⟩
  have hb := (decode_encoded hp hm).2.1 (by decide)
  rw [hb]
  rfl

end Conversion

end AccessPolicy
