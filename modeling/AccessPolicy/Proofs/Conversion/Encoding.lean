import AccessPolicy.Conversion
import AccessPolicy.Proofs.Base64.Encoding
import AccessPolicy.Proofs.Identity.Reading
import AccessPolicy.Proofs.Outcome
import Mathlib.Data.List.Nodup

/-!
# What is encoded

With a text for every identity only the etag of a policy can stand in the way of encoding it. Each
binding becomes one wire binding with its role as it is and one text for each of its members, by
code point. The octets that a decoded etag came from are the octets that it is encoded to.
-/

namespace AccessPolicy

/-- The wire binding of a binding when every identity has a text. -/
def Binding.written (text : Identity → String) (binding : Binding) : Wire.Binding :=
  ⟨binding.roleName, (binding.members.map text).mergeSort fun a b => decide (a ≤ b), none⟩

/-- A wire binding holds the texts of the members and no others. -/
theorem Binding.mem_members_written {text : Identity → String} {binding : Binding} {s : String} :
    s ∈ (binding.written text).members ↔ s ∈ binding.members.map text :=
  (List.mergeSort_perm _ _).mem_iff

/-- The members of a binding are the identities in its identity set. -/
theorem Binding.mem_members {binding : Binding} {identity : Identity} :
    identity ∈ binding.members ↔
      ∃ identities ∈ binding.identities, some identity ∈ identities := by
  unfold members
  cases binding.identities with
  | none => simp only [List.not_mem_nil, Option.not_mem_none, false_and, exists_false]
  | some identities =>
    simp only [List.mem_filterMap, id_eq, exists_eq_right, Option.mem_def, Option.some.injEq,
      exists_eq_left', OrderedSet.mem_iff]

/-- No identity is a member of a binding twice. -/
theorem Binding.nodup_members (binding : Binding) : binding.members.Nodup := by
  unfold members
  cases binding.identities with
  | none => exact List.nodup_nil
  | some identities =>
    refine List.Nodup.filterMap ?_ (identities.increasing.imp ?_)
    · intro a b identity ha hb
      rw [id_eq, Option.mem_def] at ha hb
      rw [ha, hb]
    · intro a b hlt he
      have hself : compare a a = .eq := Std.ReflCmp.compare_self
      rw [← he, hself] at hlt
      cases hlt

/-- Texts that are put by code point do not decrease. -/
theorem pairwise_mergeSort_texts (texts : List String) :
    (texts.mergeSort fun a b => decide (a ≤ b)).Pairwise (· ≤ ·) := by
  refine (List.pairwise_mergeSort ?_ ?_ _).imp of_decide_eq_true
  · intro a b c hab hbc
    exact decide_eq_true (String.le_trans (of_decide_eq_true hab) (of_decide_eq_true hbc))
  · intro a b
    rw [Bool.or_eq_true, decide_eq_true_eq, decide_eq_true_eq]
    exact String.le_total a b

/-- Put by code point, texts are the same in whatever order they came. -/
theorem mergeSort_texts_eq {texts others : List String} (h : texts.Perm others) :
    (texts.mergeSort fun a b => decide (a ≤ b)) = others.mergeSort fun a b => decide (a ≤ b) := by
  refine List.Perm.eq_of_pairwise (fun _ _ _ _ => String.le_antisymm)
    (pairwise_mergeSort_texts texts) (pairwise_mergeSort_texts others) ?_
  exact ((List.mergeSort_perm texts _).trans h).trans (List.mergeSort_perm others _).symm

/-- The texts of the members of a written binding strictly increase by code point. -/
theorem Binding.increasing_members_written (binding : Binding) :
    (binding.written Identity.text).members.Pairwise (· < ·) := by
  have hperm := List.mergeSort_perm (binding.members.map Identity.text)
    fun a b => decide (a ≤ b)
  have hnodup : (binding.written Identity.text).members.Nodup :=
    hperm.nodup_iff.mpr (binding.nodup_members.map Identity.text_injective)
  refine (pairwise_mergeSort_texts _).imp₂ ?_ hnodup
  intro a b hle hne
  exact String.not_le.mp fun hge => hne (String.le_antisymm hle hge)

namespace Conversion

/-- No text is missing where every identity has one. -/
private theorem missingTexts_map_some (texts : List String) :
    missingTexts (texts.map some) = [] := by
  rw [missingTexts, List.map_eq_nil_iff, List.filter_eq_nil_iff]
  rintro ⟨text, index⟩ hm
  obtain ⟨s, _, rfl⟩ := List.mem_map.mp (List.fst_mem_of_mem_zipIdx hm)
  simp only [Option.isNone_some, Bool.false_eq_true, not_false_eq_true]

/-- A binding whose identities all have a text is encoded, in whatever order they come. -/
theorem encodeBinding_of_total (text : Identity → String) (binding : Binding) (listing : Listing) :
    encodeBinding (fun identity => some (text identity)) binding listing =
      .ok (binding.written text) := by
  have hm : (binding.listed listing).map (fun identity => some (text identity)) =
      ((binding.listed listing).map text).map some := by
    rw [List.map_map]
    rfl
  have hf : (((binding.listed listing).map text).map some).filterMap id =
      (binding.listed listing).map text := by
    rw [List.filterMap_map]
    exact List.filterMap_some
  simp only [encodeBinding, hm, missingTexts_map_some, hf, Binding.written,
    mergeSort_texts_eq ((binding.listed_perm listing).map text)]

/-- Bindings whose identities all have a text are encoded one by one. -/
theorem encodeBindings_of_total (text : Identity → String) (bindings : List Binding)
    (listing : Listing) :
    (encodeBindings (fun identity => some (text identity)) bindings listing).result =
      .ok (bindings.map (Binding.written text)) := by
  induction bindings with
  | nil => rfl
  | cons binding rest ih =>
    simp only [encodeBindings, encodeBinding_of_total, ih, Except.map, List.map_cons]

/-- A policy whose identities all have a text is encoded unless its etag is unreadable. The order in
which identities come makes no difference. -/
theorem encode_of_total (text : Identity → String) (policy : Policy) (listing : Listing) :
    (encode (fun identity => some (text identity)) policy listing).result =
      (encodeEtag policy.etag).map fun etag =>
        ⟨policy.version, policy.bindings.map (Binding.written text), etag⟩ := by
  simp only [encode, encodeBindings_of_total]
  cases encodeEtag policy.etag <;> rfl

/-- However identities are written, a policy is encoded exactly when its bindings and its etag
are. -/
theorem encode_eq_ok_iff {format : Format} {policy : Policy} {message : Wire.Message}
    {listing : Listing} :
    (encode format policy listing).result = .ok message ↔
      (encodeBindings format policy.bindings listing).result = .ok message.bindings ∧
        encodeEtag policy.etag = .ok message.etag ∧ message.version = policy.version := by
  obtain ⟨version, bindings, etag⟩ := message
  simp only [encode]
  cases (encodeBindings format policy.bindings listing).result with
  | error fault => simp only [reduceCtorEq, false_and]
  | ok encoded =>
    cases encodeEtag policy.etag with
    | error fault => simp only [reduceCtorEq, false_and, and_false]
    | ok octets =>
      simp only [Except.ok.injEq, Wire.Message.mk.injEq]
      constructor
      · rintro ⟨hv, hb, he⟩
        exact ⟨hb, he, hv.symm⟩
      · rintro ⟨hb, he, hv⟩
        exact ⟨hv.symm, hb, he⟩

/-- An etag is encoded to the octets that it is Base64 of, and no etag to no octets. -/
theorem encodeEtag_eq_ok_iff {etag : Option String} {octets : List UInt8} :
    encodeEtag etag = .ok octets ↔
      etag.elim (some []) (fun text => Base64.decodeStrict? text.toList) = some octets := by
  cases etag with
  | none => simp only [encodeEtag, Option.elim, Except.ok.injEq, Option.some.injEq]
  | some text =>
    simp only [encodeEtag, Option.elim]
    cases Base64.decodeStrict? text.toList with
    | none => simp only [reduceCtorEq]
    | some read => simp only [Except.ok.injEq, Option.some.injEq]

/-- Encoding an etag fails exactly if there is one that is not Base64, and with this etag. -/
theorem encodeEtag_eq_error_iff {etag : Option String} {fault : Fault} :
    encodeEtag etag = .error fault ↔
      ∃ text, etag = some text ∧ Base64.decodeStrict? text.toList = none ∧ fault = .etag text := by
  cases etag with
  | none => simp only [encodeEtag, reduceCtorEq, false_and, exists_false]
  | some text =>
    simp only [encodeEtag, Option.some.injEq, exists_eq_left']
    cases Base64.decodeStrict? text.toList with
    | none => simp only [Except.error.injEq, true_and, eq_comm]
    | some read => simp only [reduceCtorEq, false_and]

/-- Exactly the message of these parts is encoded, and only if the etag can be read. -/
theorem encode_text_eq_ok_iff {policy : Policy} {message : Wire.Message} :
    (encode .text policy).result = .ok message ↔
      encodeEtag policy.etag = .ok message.etag ∧ message.version = policy.version ∧
        message.bindings = policy.bindings.map (Binding.written Identity.text) := by
  rw [show Format.text = fun identity => some identity.text from rfl, encode_of_total,
    map_eq_ok_iff]
  constructor
  · rintro ⟨etag, he, rfl⟩
    exact ⟨he, rfl, rfl⟩
  · rintro ⟨he, hv, hb⟩
    refine ⟨message.etag, he, ?_⟩
    rw [← hv, ← hb]

/-- The octets of a message come back from the etag that they are decoded to. -/
@[simp] theorem encodeEtag_decodeEtag (octets : List UInt8) :
    encodeEtag (decodeEtag octets) = .ok octets := by
  unfold decodeEtag
  split
  · rename_i h
    rw [List.isEmpty_iff.mp h]
    rfl
  · simp only [encodeEtag, String.toList_ofList, Base64.decodeStrict?_encode]

end Conversion

end AccessPolicy
