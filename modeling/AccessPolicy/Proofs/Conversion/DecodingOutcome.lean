import AccessPolicy.Proofs.Conversion.Decoding
import AccessPolicy.Proofs.Session.Logging

/-!
# What comes of decoding

Decoding reads the members of all bindings one after another, and the first one that cannot be read
is what it fails with. Only then it makes its record, and only after that the bindings are checked.
So a text that is read as the absent identity is an error of the check: it comes after the record,
and after every error of reading, even of a text that stands further back. The record shows the
version, so it can be in the way of the policy if there is a limit for digits.
-/

namespace AccessPolicy.Conversion

variable {ε : Type}

/-- What it means that a binding is what is read of a wire binding. -/
structure Reads (read : String → Except ε (Option Identity)) (wire : Wire.Binding)
    (binding : Binding) : Prop where
  /-- The role is the qualified one. -/
  role : binding.role = some (Role.ofName wire.role)
  /-- The identities are those that the members are read as. -/
  identities : ∃ identities, binding.identities = some identities ∧
    ∀ identity, identity ∈ identities ↔ ∃ text ∈ wire.members, read text = .ok identity
  /-- There is no condition. -/
  condition : binding.condition = none

/-- A wire binding is decoded to what is read of it. -/
theorem reads_of_decodeBinding {parse : Parse} {wire : Wire.Binding} {binding : Binding}
    (h : decodeBinding parse wire = .ok binding) : Reads parse wire binding := by
  obtain ⟨identities, hm, rfl⟩ := map_eq_ok_iff.mp h
  refine ⟨rfl, ⟨OrderedSet.ofList identities, rfl, fun identity => ?_⟩, rfl⟩
  rw [OrderedSet.mem_ofList, mem_iff_of_mapM_eq_ok hm]

/-- What is read of a wire binding is complete exactly if no member is read as the absent
identity. -/
theorem Reads.isComplete_iff {read : String → Except ε (Option Identity)} {wire : Wire.Binding}
    {binding : Binding} (h : Reads read wire binding) :
    binding.IsComplete ↔ ∀ text ∈ wire.members, read text ≠ .ok none := by
  obtain ⟨identities, hi, hm⟩ := h.identities
  rw [Binding.IsComplete, Binding.roleName?, h.role, hi]
  simp only [Option.mem_def, Option.some.injEq, exists_eq_left', hm, not_exists, not_and]
  exact and_iff_right rfl

/-- The only defect of what is read of a wire binding is an absent identity. -/
theorem Reads.defect_eq {read : String → Except ε (Option Identity)} {wire : Wire.Binding}
    {binding : Binding} (h : Reads read wire binding) {defect : Defect}
    (hd : binding.defect? = some defect) : defect = .identityMissing := by
  obtain ⟨identities, hi, _⟩ := h.identities
  rw [Binding.defect?, Binding.roleName?, h.role, hi] at hd
  simp only [Role.ofName, Option.bind_some, reduceCtorEq, if_false] at hd
  split at hd
  · exact (Option.some.inj hd).symm
  · cases hd

/-- The members are read in document order: bindings are decoded as long as the members of all of
them, one binding after another, can be read. -/
theorem decodeBindings_matches (parse : Parse) (bindings : List Wire.Binding) :
    Matches (fun _ _ => True) (bindings.mapM (decodeBinding parse))
      ((bindings.flatMap Wire.Binding.members).mapM parse) := by
  induction bindings with
  | nil => exact .value trivial
  | cons binding rest ih =>
    rw [List.mapM_cons, List.flatMap_cons, List.mapM_append]
    have hfirst : Matches (fun _ _ => True) (decodeBinding parse binding)
        (binding.members.mapM parse) := .of_map fun _ _ => trivial
    refine hfirst.bind fun _ _ _ => ?_
    exact ih.bind fun _ _ _ => .value trivial

/-- Decoding fails with the error of the first member that cannot be read, and without a record. -/
theorem decode_of_unreadable {parse : Parse} {message : Wire.Message} {before after : List String}
    {text : String} {unreadable : Identity.Unreadable}
    (hsplit : message.bindings.flatMap Wire.Binding.members = before ++ text :: after)
    (hbefore : ∀ earlier ∈ before, ∃ identity, parse earlier = .ok identity)
    (h : parse text = .error unreadable) :
    decode parse message = ⟨.error (.unreadable unreadable), []⟩ := by
  have hmatches := decodeBindings_matches parse message.bindings
  rw [hsplit, mapM_eq_error_of_first hbefore h] at hmatches
  rw [decode]
  generalize message.bindings.mapM (decodeBinding parse) = outcome at hmatches ⊢
  cases hmatches with
  | error _ => rfl

/-- Bindings whose members can all be read are decoded. -/
theorem exists_decoded {parse : Parse} {bindings : List Wire.Binding}
    (h : ∀ wire ∈ bindings, ∀ text ∈ wire.members, ∃ identity, parse text = .ok identity) :
    ∃ decoded, bindings.mapM (decodeBinding parse) = .ok decoded := by
  refine exists_mapM_eq_ok fun wire hw => ?_
  obtain ⟨identities, hi⟩ := exists_mapM_eq_ok (h wire hw)
  exact ⟨_, map_eq_ok_iff.mpr ⟨identities, hi, rfl⟩⟩

variable {parse : Parse} {bindings : List Wire.Binding} {decoded : List Binding}

/-- Decoded bindings are read of the wire bindings, one by one. -/
theorem reads_of_decoded (h : bindings.mapM (decodeBinding parse) = .ok decoded) :
    List.Forall₂ (Reads parse) bindings decoded :=
  (mapM_eq_ok_iff.mp h).imp fun _ _ => reads_of_decodeBinding

/-- Decoded bindings are complete exactly if no member is read as the absent identity. -/
theorem isComplete_decoded_iff (h : bindings.mapM (decodeBinding parse) = .ok decoded) :
    (∀ binding ∈ decoded, binding.IsComplete) ↔
      ∀ wire ∈ bindings, ∀ text ∈ wire.members, parse text ≠ .ok none := by
  have hreads := reads_of_decoded h
  clear h
  induction hreads with
  | nil => simp only [List.not_mem_nil, false_implies, implies_true]
  | cons hread _ ih =>
    rw [List.forall_mem_cons, List.forall_mem_cons]
    exact and_congr hread.isComplete_iff ih

/-- Decoded bindings that are not complete are refused for an absent identity. -/
theorem construct_decoded_of_absent (h : bindings.mapM (decodeBinding parse) = .ok decoded)
    (hc : ¬∀ binding ∈ decoded, binding.IsComplete) (etag : Option String) (version : Int) :
    Policy.construct (some (decoded.map some)) etag version = .error .identityMissing := by
  rw [Policy.construct, checkedBindings]
  cases hchecked : completeBindings (decoded.map some) with
  | ok passed =>
    obtain ⟨heq, hpassed⟩ := of_completeBindings_eq_ok hchecked
    rw [(List.map_injective_iff.mpr fun _ _ => Option.some.inj) heq] at hc
    exact absurd hpassed hc
  | error defect =>
    obtain ⟨binding, hb, hd⟩ := exists_defect_of_completeBindings_eq_error hchecked
    obtain ⟨wire, _, hwire⟩ := exists_of_mem_of_mapM_eq_ok h hb
    rw [(reads_of_decodeBinding hwire).defect_eq hd]
    rfl

/-- When all members could be read, decoding a message goes on with its record. -/
theorem shown_decode_of_decoded {message : Wire.Message}
    (h : message.bindings.mapM (decodeBinding parse) = .ok decoded) (logger : Logger) :
    logger.shown (decode parse message) =
      let entry : Entry := .decoded message.version message.bindings.length
      ⟨(logger.ending [entry]).bind fun _ =>
        (Policy.construct (some (decoded.map some)) (decodeEtag message.etag)
          message.version).mapError .defect, logger.seen [entry]⟩ := by
  rw [shown_decode, h, (reads_of_decoded h).length_eq]

/-- A reader of user names that takes one of them for nobody and cannot read another one. -/
private def users : String → Except String (Option Identity)
  | "nobody" => .ok none
  | "?" => .error "no user"
  | name => .ok (some ⟨.user, some name⟩)

/-- A session with logging on in which a name stands for a message. -/
private def received (digits : Option Nat) (message : Wire.Message) : Session :=
  { logging := true, digits, messages := ({} : Table Wire.Message).set "sent" message }

end AccessPolicy.Conversion
