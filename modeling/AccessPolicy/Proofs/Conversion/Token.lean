import AccessPolicy.Proofs.Conversion.Decoding
import AccessPolicy.Proofs.Conversion.Encoding
import AccessPolicy.Proofs.Policy.Calls

/-!
# Keeping the token

A client reads a policy, stages other bindings and writes the policy back. The service recognizes
the policy that is replaced by its etag, so the octets of the etag have to come back as they were
sent. A builder that starts from a decoded message guards the token of that message, and whatever
is staged afterwards, what is built from it is encoded with the same token.
-/

namespace AccessPolicy

/-- Whether a builder can be built and holds the token and the version of a message. -/
structure Builder.Guards (builder : Builder) (message : Wire.Message) : Prop where
  /-- What is staged passes the check. -/
  complete : builder.IsComplete
  /-- The etag is the one that the message is decoded to. -/
  etag : builder.etag = Conversion.decodeEtag message.etag
  /-- The version is that of the message. -/
  version : builder.version = message.version

namespace Builder

/-- Whether a call leaves the etag and the version alone, whether it succeeds or not. -/
def Call.KeepsToken (c : Call) : Prop := c = .build ∨ ∃ entries, c = .setBindings entries

/-- A builder that starts from a decoded policy guards the token of the message. -/
theorem guards_of_decode {message : Wire.Message} {policy : Policy}
    (h : (Conversion.decode .canonical message).result = .ok policy) :
    ∃ builder, policy.toBuilder = .ok builder ∧ builder.bindings = policy.bindings ∧
      builder.Guards message := by
  obtain ⟨_, hc, he, hv⟩ := Conversion.decode_eq_ok_iff.mp h
  exact ⟨_, Policy.toBuilder_of_complete hc, rfl, hc, he, hv⟩

/-- A call that leaves the etag and the version alone keeps the token guarded. -/
theorem Guards.call {builder : Builder} {message : Wire.Message} (hg : builder.Guards message)
    {c : Call} (hc : c.KeepsToken) : (builder.call c).Guards message := by
  rcases hc with rfl | ⟨entries, rfl⟩
  · exact hg
  · rw [Builder.call]
    cases hs : builder.setBindings entries with
    | error defect => exact hg
    | ok changed =>
      obtain ⟨_, hn, he, hv⟩ := setBindings_eq_ok_iff.mp hs
      exact ⟨hn, he.trans hg.etag, hv.trans hg.version⟩

/-- Calls that leave the etag and the version alone keep the token guarded. -/
theorem Guards.run {builder : Builder} {message : Wire.Message} (hg : builder.Guards message)
    {calls : List Call} (hc : ∀ c ∈ calls, c.KeepsToken) : (builder.run calls).Guards message := by
  induction calls generalizing builder with
  | nil => exact hg
  | cons c rest ih =>
    rw [List.forall_mem_cons] at hc
    exact ih (hg.call hc.1) hc.2

/-- What is built while the token is guarded is encoded with the token and the version of the
message. -/
theorem Guards.encode_build {builder : Builder} {message : Wire.Message}
    (hg : builder.Guards message) :
    ∃ built, builder.build = .ok built ∧
      (Conversion.encode .text built).result = .ok ⟨message.version,
        builder.bindings.map (Binding.written Identity.text), message.etag⟩ := by
  refine ⟨_, build_of_complete hg.complete, Conversion.encode_text_eq_ok_iff.mpr ⟨?_, ?_, rfl⟩⟩
  · simp only [hg.etag, Conversion.encodeEtag_decodeEtag]
  · exact hg.version.symm

end Builder

namespace Conversion

/-- However bindings are staged in a builder that starts from a decoded message, what is built at
any time is encoded with the etag and the version of the message and with the bindings staged
last. -/
theorem encode_run_of_decode {message : Wire.Message} {policy : Policy}
    (h : (decode .canonical message).result = .ok policy) {calls : List Builder.Call}
    (hc : ∀ c ∈ calls, c.KeepsToken) :
    ∃ builder built, policy.toBuilder = .ok builder ∧ (builder.run calls).build = .ok built ∧
      (encode .text built).result = .ok ⟨message.version,
        (Builder.lastStaged policy.bindings calls).map (Binding.written Identity.text),
        message.etag⟩ := by
  obtain ⟨builder, hb, hs, hg⟩ := Builder.guards_of_decode h
  obtain ⟨built, hbuilt, he⟩ := (hg.run hc).encode_build
  rw [Builder.run_bindings, hs] at he
  exact ⟨builder, built, hb, hbuilt, he⟩

/-- The token is kept through a refused call, a successful one and another refused one. -/
theorem encode_run_of_decode_refused :
    (decode .canonical ⟨3, [⟨"viewer", ["allUsers"], none⟩], [251, 255]⟩).result =
        .ok ⟨[granted "viewer" [⟨.allUsers, none⟩]], some "+/8=", 3⟩ ∧
      (∀ c ∈ [.setBindings none, .build, .setBindings (some [some (granted "editor" [])]),
        .setBindings (some [none])], Builder.Call.KeepsToken c) ∧
      ∃ builder built,
        Policy.toBuilder ⟨[granted "viewer" [⟨.allUsers, none⟩]], some "+/8=", 3⟩ = .ok builder ∧
        (builder.run [.setBindings none, .build, .setBindings (some [some (granted "editor" [])]),
          .setBindings (some [none])]).build = .ok built ∧
        (encode .text built).result = .ok ⟨3, [⟨"roles/editor", [], none⟩], [251, 255]⟩ := by
  have h : (decode .canonical ⟨3, [⟨"viewer", ["allUsers"], none⟩], [251, 255]⟩).result =
      .ok ⟨[granted "viewer" [⟨.allUsers, none⟩]], some "+/8=", 3⟩ := rfl
  have hc : ∀ c ∈ [.setBindings none, .build, .setBindings (some [some (granted "editor" [])]),
      .setBindings (some [none])], Builder.Call.KeepsToken c := by
    simp [Builder.Call.KeepsToken]
  obtain ⟨builder, built, hb, hbuilt, he⟩ := encode_run_of_decode h hc
  refine ⟨h, hc, builder, built, hb, hbuilt, he.trans ?_⟩
  have hs : Builder.lastStaged [granted "viewer" [⟨.allUsers, none⟩]] [.setBindings none, .build,
      .setBindings (some [some (granted "editor" [])]), .setBindings (some [none])] =
        [granted "editor" []] := rfl
  have hm : (granted "editor" []).members = [] := rfl
  have hn : (granted "editor" []).roleName = "roles/editor" := rfl
  simp only [hs, List.map_cons, List.map_nil, Binding.written, hm, hn, List.mergeSort_nil]

end Conversion

end AccessPolicy
