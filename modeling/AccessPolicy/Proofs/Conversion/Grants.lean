import AccessPolicy.Proofs.Conversion.DecodingOutcome
import AccessPolicy.Proofs.Conversion.Encoding
import AccessPolicy.Proofs.Session.Completeness

/-!
# Grants on the wire

However identities are written, encoding neither loses a grant nor adds one: each binding becomes
one wire binding with the same role and with one member for each identity. Identities that are
written alike make a member each, which happens with no two identities if their own texts are
written. Whoever can tell from each member which identity it was written for gets the identity sets
back.
-/

namespace AccessPolicy.Conversion

/-- What it means that a wire binding grants what a binding grants, with these texts for the
identities. -/
structure Grants (text : Identity → String) (binding : Binding) (wire : Wire.Binding) : Prop where
  /-- The role is the same. -/
  role : ∃ role, binding.role = some role ∧ role.name = some wire.role
  /-- The members are the texts of all identities in the set, one for each, in whatever order. -/
  members : ∃ identities, binding.identities = some identities ∧ ∃ listed : List Identity,
    listed.Nodup ∧ (∀ identity, identity ∈ identities ↔ identity ∈ listed.map some) ∧
      wire.members.Perm (listed.map text)
  /-- There is no condition. -/
  condition : wire.condition = none

variable {text : Identity → String} {binding : Binding} {wire : Wire.Binding}

/-- A complete binding is written as what it grants. -/
theorem grants_written (h : binding.IsComplete) : Grants text binding (binding.written text) := by
  obtain ⟨role, name, identities, hr, hn, hi, habsent⟩ := Binding.isComplete_iff.mp h
  refine ⟨⟨role, hr, ?_⟩, ⟨identities, hi, binding.members, binding.nodup_members, ?_, ?_⟩, rfl⟩
  · rw [hn, Binding.written, Binding.roleName, Binding.roleName?, hr, Option.bind_some, hn]
    rfl
  · intro identity
    rw [List.mem_map]
    cases identity with
    | none =>
      simp only [habsent, reduceCtorEq, and_false, exists_false]
    | some identity =>
      simp only [Binding.mem_members, hi, Option.mem_def, Option.some.injEq, exists_eq_left',
        exists_eq_right]
  · exact List.mergeSort_perm _ _

/-- Texts that tell identities apart make members that differ. -/
theorem Grants.nodup (h : Grants text binding wire) (ht : Function.Injective text) :
    wire.members.Nodup := by
  obtain ⟨_, _, listed, hl, _, hperm⟩ := h.members
  exact hperm.nodup_iff.mpr (hl.map ht)

section Read

variable {parse : Parse} (h : Grants text binding wire)
  (hparse : ∀ identity ∈ binding.members, parse (text identity) = .ok (some identity))

include h hparse

/-- What is granted is read back as the same identity set. -/
theorem Grants.exists_decoded : ∃ back, decodeBinding parse wire = .ok back ∧ back.IsComplete ∧
    back.identities = binding.identities := by
  obtain ⟨identities, hi, listed, _, hlisted, hperm⟩ := h.members
  have hread : ∀ identity ∈ listed, parse (text identity) = .ok (some identity) := by
    intro identity hm
    refine hparse identity (Binding.mem_members.mpr ⟨identities, hi, (hlisted _).mpr ?_⟩)
    exact List.mem_map_of_mem hm
  -- The members are read as the listed identities, although perhaps in another order.
  have hmember (text' : String) :
      text' ∈ wire.members ↔ ∃ identity ∈ listed, text identity = text' := by
    rw [hperm.mem_iff, List.mem_map]
  have hall : ∀ text' ∈ wire.members, ∃ identity, parse text' = .ok identity := by
    intro text' hm
    obtain ⟨identity, hl, rfl⟩ := (hmember text').mp hm
    exact ⟨some identity, hread identity hl⟩
  obtain ⟨read, hr⟩ := exists_mapM_eq_ok hall
  have hdecoded : decodeBinding parse wire =
      .ok ⟨some (Role.ofName wire.role), some (OrderedSet.ofList read), none⟩ :=
    map_eq_ok_iff.mpr ⟨read, hr, rfl⟩
  have hreads := reads_of_decodeBinding hdecoded
  refine ⟨_, hdecoded, hreads.isComplete_iff.mpr ?_, ?_⟩
  · intro text' hm habsent
    obtain ⟨identity, hl, rfl⟩ := (hmember text').mp hm
    rw [hread identity hl] at habsent
    cases habsent
  · rw [hi]
    refine congrArg some (OrderedSet.ext fun identity => ?_)
    rw [OrderedSet.mem_ofList, mem_iff_of_mapM_eq_ok hr, hlisted, List.mem_map]
    constructor
    · rintro ⟨text', hm, ht⟩
      obtain ⟨member, hl, rfl⟩ := (hmember text').mp hm
      rw [hread member hl] at ht
      exact ⟨member, hl, Except.ok.inj ht⟩
    · rintro ⟨member, hl, rfl⟩
      exact ⟨text member, (hmember _).mpr ⟨member, hl, rfl⟩, hread member hl⟩

end Read

/-- What bindings grant is read back as the same identity sets, one by one. -/
theorem exists_decoded_of_grants {parse : Parse} {bindings : List Binding}
    {wires : List Wire.Binding} (h : List.Forall₂ (Grants text) bindings wires)
    (hparse : ∀ binding ∈ bindings, ∀ identity ∈ binding.members,
      parse (text identity) = .ok (some identity)) :
    ∃ decoded, wires.mapM (decodeBinding parse) = .ok decoded ∧
      (∀ back ∈ decoded, back.IsComplete) ∧
      decoded.map Binding.identities = bindings.map Binding.identities := by
  induction h with
  | nil => exact ⟨[], rfl, fun _ hm => absurd hm List.not_mem_nil, rfl⟩
  | cons hgrants _ ih =>
    rw [List.forall_mem_cons] at hparse
    obtain ⟨back, hback, hc, hi⟩ := hgrants.exists_decoded hparse.1
    obtain ⟨decoded, hdecoded, hcs, his⟩ := ih hparse.2
    refine ⟨back :: decoded, ?_, List.forall_mem_cons.mpr ⟨hc, hcs⟩, ?_⟩
    · rw [List.mapM_cons, hback, hdecoded]
      rfl
    · rw [List.map_cons, List.map_cons, hi, his]

/-- Nothing is in the way of showing that a policy was written unless somebody wants to see a
version that cannot be written out. -/
theorem ending_encoded {logger : Logger} {version : Int} {shownAs : String}
    (h : logger.on = true → Text.decimal logger.digits version = .ok shownAs) (bindings : Nat) :
    logger.ending [.encoded version bindings] = .ok () := by
  cases hon : logger.on with
  | true => exact (Logger.shown_entry_of_ok hon (Entry.record_of_decimal (h hon) bindings).2).1
  | false => rw [Logger.ending, if_neg (by rw [hon]; exact Bool.false_ne_true)]

/-- A policy of a session whose etag can be read is encoded with its version and its octets, however
identities are written and in whatever order they come, unless logging is on and the version cannot
be written out. Each binding becomes one wire binding that grants the same. If the texts of
identities are written, no two members of a wire binding are equal. From this message, and from any
other that grants the same, whoever reads each text as the identity that it was written for gets all
identity sets back. -/
theorem encode_grants (digits : Option Nat) (steps : List Step) (name target : String)
    {policy : Policy} {octets : List UInt8} (text : Identity → String) (listing : Listing)
    (hpolicy : (Session.run { digits } steps).2.policies.get? name = some policy)
    (hetag : policy.etag.elim (some []) (fun etag => Base64.decodeStrict? etag.toList) =
      some octets)
    (hversion : (Session.run { digits } steps).2.logging = true →
      Text.decimal digits policy.version = .ok (toString policy.version)) :
    ∃ message records,
      ((Session.run { digits } steps).2.step
        (.encode name target (fun identity => some (text identity)) listing)).1 =
          .encoded ⟨.ok message, records⟩ ∧
      message.version = policy.version ∧ message.etag = octets ∧
      List.Forall₂ (Grants text) policy.bindings message.bindings ∧
      (text = Identity.text → ∀ wire ∈ message.bindings, wire.members.Nodup) ∧
      ∀ parse : Parse, (∀ binding ∈ policy.bindings, ∀ identity ∈ binding.members,
          parse (text identity) = .ok (some identity)) →
        ∀ sent : Wire.Message, List.Forall₂ (Grants text) policy.bindings sent.bindings →
          ∃ back, (decode parse sent).result = .ok back ∧
            back.bindings.map Binding.identities = policy.bindings.map Binding.identities := by
  have hcomplete := Session.isComplete_of_run hpolicy
  have hgrants : List.Forall₂ (Grants text) policy.bindings
      (policy.bindings.map (Binding.written text)) := by
    rw [List.forall₂_map_right_iff, List.forall₂_same]
    exact fun binding hm => grants_written (hcomplete binding hm)
  let message : Wire.Message :=
    ⟨policy.version, policy.bindings.map (Binding.written text), octets⟩
  rw [Session.answer_encode hpolicy]
  have hshown (logger : Logger)
      (h : logger.on = true →
        Text.decimal logger.digits policy.version = .ok (toString policy.version)) :
      ∃ records, logger.shown (encode (fun identity => some (text identity)) policy listing) =
        ⟨.ok message, records⟩ := by
    simp only [shown_encode, encodeBindings_of_total, encodeEtag_eq_ok_iff.mpr hetag,
      ending_encoded h, Except.bind]
    exact ⟨_, rfl⟩
  have hdigits : (Session.run { digits } steps).2.logger.digits = digits := Session.digits_run steps
  obtain ⟨records, hrecords⟩ := hshown (Session.run { digits } steps).2.logger fun hon => by
    rw [hdigits]
    exact hversion hon
  refine ⟨message, records, congrArg Answer.encoded hrecords, rfl, rfl, hgrants, ?_, ?_⟩
  · rintro rfl wire hw
    obtain ⟨binding, hm, rfl⟩ := List.mem_map.mp hw
    exact (grants_written (hcomplete binding hm)).nodup Identity.text_injective
  · intro parse hparse sent hsent
    obtain ⟨decoded, hdecoded, hback, hsets⟩ := exists_decoded_of_grants hsent hparse
    refine ⟨⟨decoded, decodeEtag sent.etag, sent.version⟩, ?_, hsets⟩
    exact decode_eq_ok_iff.mpr ⟨hdecoded, hback, rfl, rfl⟩

/-- Identities whose texts cannot be read as identities. -/
private def malformed : List Identity :=
  [⟨.user, none⟩, ⟨.user, some ""⟩, ⟨.user, some "a:b"⟩]

/-- The one of these identities that a text is the text of. -/
private def readMalformed (text : String) : Except Identity.Unreadable (Option Identity) :=
  (malformed.find? fun identity => identity.text = text).elim
    (.error ⟨.unknownKind, text⟩) (.ok ∘ some)

/-- A session with logging on in which a policy grants a role to these identities. -/
private def storedMalformed : List Step :=
  [.logging true,
    .construct "stored"
      (.given (some [.binding (.value (some ⟨some "viewer"⟩)) (some (malformed.map .value))
        (some {})]))
      (some "QUJD") 1]

/-- The identities make three members, also if all of them are written alike. If their texts are
written, whoever knows these identities gets the identity set back. -/
theorem encode_grants_malformed :
    let binding : Binding := ⟨some ⟨some "viewer"⟩,
      some (OrderedSet.ofList (malformed.map some)), some {}⟩
    let encode (text : Identity → String) := ((Session.run {} storedMalformed).2.step
      (.encode "stored" "sent" fun identity => some (text identity))).1
    (∃ message log, encode (fun _ => "user") = .encoded ⟨.ok message, log⟩ ∧
      List.Forall₂ (Grants fun _ => "user") [binding] message.bindings) ∧
    ∃ message log, encode Identity.text = .encoded ⟨.ok message, log⟩ ∧
      (∀ wire ∈ message.bindings, wire.members.Nodup) ∧
      ∃ back, (decode readMalformed message).result = .ok back ∧
        back.bindings.map Binding.identities = [binding.identities] := by
  intro binding encode
  have hpolicy : (Session.run {} storedMalformed).2.policies.get? "stored" =
      some ⟨[binding], some "QUJD", 1⟩ := by
    decide +kernel
  have hetag : (some "QUJD").elim (some [])
      (fun etag => Base64.decodeStrict? etag.toList) = some [65, 66, 67] := by
    decide +kernel
  have hread : ∀ granted ∈ [binding], ∀ identity ∈ granted.members,
      readMalformed identity.text = .ok (some identity) := by
    decide +kernel
  have hversion : (Session.run {} storedMalformed).2.logging = true →
      Text.decimal (some 4300) 1 = .ok (toString (1 : Int)) := by
    decide +kernel
  obtain ⟨alike, log, halike, _, _, hgrants, _⟩ :=
    encode_grants (some 4300) storedMalformed "stored" "sent" (fun _ => "user") .sorted hpolicy
      hetag hversion
  obtain ⟨message, log', hmessage, _, _, hsame, hnodup, hback⟩ :=
    encode_grants (some 4300) storedMalformed "stored" "sent" Identity.text .sorted hpolicy hetag
      hversion
  exact ⟨⟨alike, log, halike, hgrants⟩,
    message, log', hmessage, hnodup rfl, hback readMalformed hread message hsame⟩

end AccessPolicy.Conversion
