import AccessPolicy.Input
import AccessPolicy.Proofs.Conversion.Decoding
import AccessPolicy.Proofs.Identity.Grammar

/-!
# Bindings of listed identities

A caller lists the identities of a binding by their texts, as values, or as absent. A list of which
every text can be read stands for a set: an identity is in it if something in the list means it, in
whatever order and however often. Otherwise the first text that cannot be read decides the report.
A binding that was decoded comes back from the name of its role and the texts of its identities.
-/

namespace AccessPolicy

namespace IdentityInput

/-- Which identity an input means, if not the absent one. -/
inductive Means : IdentityInput → Option Identity → Prop where
  /-- A text means the identity that it stands for. -/
  | text {text : String} {identity : Identity} (spells : Identity.Spells text identity) :
      Means (.text text) (some identity)
  /-- A value means itself. -/
  | value (identity : Identity) : Means (.value identity) (some identity)
  /-- Nothing means the absent identity. -/
  | absent : Means .absent none

variable {input : IdentityInput} {member : Option Identity}

/-- An input is resolved to what it means. -/
theorem resolve_eq_ok_iff : input.resolve = .ok member ↔ input.Means member := by
  constructor
  · intro h
    cases input with
    | text text =>
      obtain ⟨identity, hread, rfl⟩ := map_eq_ok_iff.mp h
      exact .text (Identity.ofText_eq_ok_iff_spells.mp hread)
    | value identity =>
      cases h
      exact .value identity
    | absent =>
      cases h
      exact .absent
  · intro h
    cases h with
    | text spells => exact map_eq_ok_iff.mpr ⟨_, Identity.ofText_eq_ok_iff_spells.mpr spells, rfl⟩
    | value identity => rfl
    | absent => rfl

/-- An input is refused only as a text that cannot be read. -/
theorem resolve_eq_error_iff {unreadable : Identity.Unreadable} :
    input.resolve = .error unreadable ↔
      ∃ text, input = .text text ∧ Identity.ofText text = .error unreadable := by
  cases input with
  | text text =>
    rw [resolve, map_eq_error_iff]
    constructor
    · intro h
      exact ⟨text, rfl, h⟩
    · rintro ⟨_, ⟨⟩, h⟩
      exact h
  | value identity => simp only [resolve, reduceCtorEq, false_and, exists_false]
  | absent => simp only [resolve, reduceCtorEq, false_and, exists_false]

/-- Everything but a text always means something. -/
theorem exists_means_iff :
    (∃ member, input.Means member) ↔
      ∀ text, input = .text text → ∃ identity, Identity.Spells text identity := by
  constructor
  · rintro ⟨member, h⟩ text rfl
    cases h with
    | text spells => exact ⟨_, spells⟩
  · intro h
    cases input with
    | text text =>
      obtain ⟨identity, spells⟩ := h text rfl
      exact ⟨some identity, .text spells⟩
    | value identity => exact ⟨some identity, .value identity⟩
    | absent => exact ⟨none, .absent⟩

/-- The text of a canonical identity means this identity. -/
theorem means_text_iff {identity : Identity} (hc : identity.IsCanonical) :
    (IdentityInput.text identity.text).Means member ↔ member = some identity := by
  rw [← resolve_eq_ok_iff, resolve, Identity.ofText_text hc]
  exact ⟨fun h => (Except.ok.inj h).symm, fun h => congrArg Except.ok h.symm⟩

end IdentityInput

variable {identities : List IdentityInput}

/-- A list stands for a set exactly if every input in it means something, and the set is that of
all that is meant. -/
theorem identitySet_eq_ok_iff {set : IdentitySet} :
    identitySet identities = .ok set ↔
      (∀ input ∈ identities, ∃ member, input.Means member) ∧
        ∀ member, member ∈ set ↔ ∃ input ∈ identities, input.Means member := by
  simp only [← IdentityInput.resolve_eq_ok_iff]
  rw [identitySet, map_eq_ok_iff]
  constructor
  · rintro ⟨members, hm, rfl⟩
    refine ⟨exists_ok_of_mapM_eq_ok hm, fun member => ?_⟩
    rw [OrderedSet.mem_ofList, mem_iff_of_mapM_eq_ok hm]
  · rintro ⟨hall, hset⟩
    obtain ⟨members, hm⟩ := exists_mapM_eq_ok hall
    refine ⟨members, hm, OrderedSet.ext fun member => ?_⟩
    rw [OrderedSet.mem_ofList, mem_iff_of_mapM_eq_ok hm, hset]

/-- A list is refused exactly for the first text in it that cannot be read. -/
theorem identitySet_eq_error_iff {unreadable : Identity.Unreadable} :
    identitySet identities = .error unreadable ↔
      ∃ before text after, identities = before ++ .text text :: after ∧
        (∀ earlier, .text earlier ∈ before → ∃ identity, Identity.Spells earlier identity) ∧
        Identity.ofText text = .error unreadable := by
  have hreadable (before : List IdentityInput) :
      (∀ input ∈ before, ∃ member, input.resolve = .ok member) ↔
        ∀ earlier, .text earlier ∈ before → ∃ identity, Identity.Spells earlier identity := by
    simp only [IdentityInput.resolve_eq_ok_iff, IdentityInput.exists_means_iff]
    exact ⟨fun h earlier hm => h _ hm earlier rfl, fun h input hm text he => h text (he ▸ hm)⟩
  rw [identitySet, map_eq_error_iff, mapM_eq_error_iff]
  constructor
  · rintro ⟨before, input, after, rfl, hbefore, hinput⟩
    obtain ⟨text, rfl, hread⟩ := IdentityInput.resolve_eq_error_iff.mp hinput
    exact ⟨before, text, after, rfl, (hreadable before).mp hbefore, hread⟩
  · rintro ⟨before, text, after, rfl, hbefore, hread⟩
    exact ⟨before, .text text, after, rfl, (hreadable before).mpr hbefore,
      IdentityInput.resolve_eq_error_iff.mpr ⟨text, rfl, hread⟩⟩

/-- The texts of canonical identities stand for the set of these, in whatever order and number they
are listed. -/
theorem identitySet_texts {set : IdentitySet} {listed : List Identity}
    (hc : ∀ identity ∈ listed, identity.IsCanonical)
    (hset : ∀ member, member ∈ set ↔ ∃ identity ∈ listed, member = some identity) :
    identitySet (listed.map fun identity => .text identity.text) = .ok set := by
  rw [identitySet_eq_ok_iff]
  simp only [List.mem_map, forall_exists_index, and_imp, forall_apply_eq_imp_iff₂,
    exists_exists_and_eq_and]
  refine ⟨fun identity hm => ⟨some identity, ?_⟩, fun member => ?_⟩
  · exact (IdentityInput.means_text_iff (hc identity hm)).mpr rfl
  · rw [hset]
    exact exists_congr fun identity => and_congr_right fun hm =>
      (IdentityInput.means_text_iff (hc identity hm)).symm

/-- What was granted to canonical identities is bound again by the name of the role and the texts of
the identities. -/
theorem Binding.of_granted {role : String} {read listed : List Identity}
    (hc : ∀ identity ∈ read, identity.IsCanonical)
    (hlisted : ∀ identity, identity ∈ read ↔ identity ∈ listed) :
    Binding.of (.name (Role.qualify role)) (listed.map fun identity => .text identity.text) =
      .ok (Conversion.granted role read) := by
  have hset : identitySet (listed.map fun identity => .text identity.text) =
      .ok (OrderedSet.ofList (read.map some)) := by
    refine identitySet_texts (fun identity hm => hc identity ((hlisted identity).mpr hm)) ?_
    intro member
    simp only [OrderedSet.mem_ofList, List.mem_map, hlisted, eq_comm]
  rw [Binding.of, hset, RoleInput.resolve, Role.ofName, Role.qualify_qualify]
  rfl

/-- Binding a role to listed identities fails exactly if some text in the list stands for no
identity, and then for the first such text. Otherwise the role is bound to all identities that are
meant, under the condition that was given. A binding of a decoded policy is what the name of its
role is bound to with the texts of its identities, in whatever order and number they are listed. A
complete role name stays as it is. -/
theorem Binding.of_outcome (role : RoleInput) (identities : List IdentityInput)
    (condition : Option Condition) :
    let made := Binding.of role identities condition
    ((∃ unreadable, made = .error unreadable) ↔
      ∃ text, .text text ∈ identities ∧ ∀ identity, ¬Identity.Spells text identity) ∧
    (∀ unreadable, made = .error unreadable ↔
      ∃ before text after, identities = before ++ .text text :: after ∧
        (∀ earlier, .text earlier ∈ before → ∃ identity, Identity.Spells earlier identity) ∧
        Identity.ofText text = .error unreadable) ∧
    (∀ binding, made = .ok binding →
      binding.role = (match role with
        | .name name => some (Role.ofName name)
        | .value given => given) ∧
      (∃ set, binding.identities = some set ∧
        ∀ member, member ∈ set ↔ ∃ input ∈ identities, input.Means member) ∧
      binding.condition = condition) ∧
    (∀ message policy, (Conversion.decode .canonical message).result = .ok policy →
      ∀ binding ∈ policy.bindings, ∃ name set, binding.role = some ⟨some name⟩ ∧
        binding.identities = some set ∧ none ∉ set ∧
        ∀ listed : List Identity, (∀ identity, some identity ∈ set ↔ identity ∈ listed) →
          Binding.of (.name name) (listed.map fun identity => .text identity.text) =
            .ok binding) ∧
    ∀ name, ∃ full, Role.ofName name = ⟨some full⟩ ∧ Role.ofName full = ⟨some full⟩ := by
  intro made
  have herror (unreadable : Identity.Unreadable) :
      made = .error unreadable ↔ identitySet identities = .error unreadable := map_eq_error_iff
  refine ⟨?_, fun unreadable => ?_, fun binding h => ?_, ?_, fun name => ?_⟩
  · simp only [herror]
    constructor
    · rintro ⟨unreadable, h⟩
      obtain ⟨before, text, after, rfl, _, hread⟩ := identitySet_eq_error_iff.mp h
      refine ⟨text, List.mem_append_right before List.mem_cons_self, fun identity hspells => ?_⟩
      rw [Identity.ofText_eq_ok_iff_spells.mpr hspells] at hread
      cases hread
    · rintro ⟨text, hm, hnone⟩
      cases h : identitySet identities with
      | error unreadable => exact ⟨unreadable, rfl⟩
      | ok set =>
        obtain ⟨identity, hspells⟩ := IdentityInput.exists_means_iff.mp
          ((identitySet_eq_ok_iff.mp h).1 _ hm) text rfl
        exact absurd hspells (hnone identity)
  · rw [herror, identitySet_eq_error_iff]
  · obtain ⟨set, hset, rfl⟩ := map_eq_ok_iff.mp h
    exact ⟨by cases role <;> rfl, ⟨set, rfl, (identitySet_eq_ok_iff.mp hset).2⟩, rfl⟩
  · intro message policy hdecode binding hm
    obtain ⟨wire, _, hwire⟩ :=
      exists_of_mem_of_mapM_eq_ok (Conversion.decode_eq_ok_iff.mp hdecode).1 hm
    obtain ⟨read, hc, _, rfl⟩ := Conversion.decodeBinding_canonical_eq_ok_iff.mp hwire
    refine ⟨Role.qualify wire.role, _, rfl, rfl, ?_, fun listed hlisted => ?_⟩
    · simp only [OrderedSet.mem_ofList, List.mem_map, reduceCtorEq, and_false, exists_false,
        not_false_eq_true]
    · refine Binding.of_granted hc fun identity => ?_
      rw [← hlisted, OrderedSet.mem_ofList, List.mem_map_of_injective fun _ _ => Option.some.inj]
  · refine ⟨Role.qualify name, rfl, ?_⟩
    rw [Role.ofName, Role.qualify_qualify]

/-- Of two texts that cannot be read the first is reported. An identity that is listed by its text
and as a value is bound once, beside the absent one. A decoded binding is bound again, whatever the
order in which its identities are listed. -/
theorem Binding.of_outcome_mixed :
    let ann : Identity := ⟨.user, some "ann"⟩
    let wire : Wire.Binding := ⟨"viewer", ["user:ann", "allUsers", "user:ann"], some {}⟩
    Binding.of (.name "viewer") [.absent, .text "user:ann", .text "user", .value ⟨.group, none⟩,
        .text "user::"] = .error ⟨.valueRequired, "user"⟩ ∧
      (∃ binding set, Binding.of (.value none) [.text "user:ann", .absent, .value ann] (some {}) =
        .ok binding ∧ binding.identities = some set ∧ some ann ∈ set ∧ none ∈ set) ∧
      (Conversion.decode .canonical ⟨1, [wire], []⟩).result =
        .ok ⟨[Conversion.granted "viewer" [ann, ⟨.allUsers, none⟩, ann]], none, 1⟩ ∧
      Binding.of (.name "roles/viewer") [.text "allUsers", .text "user:ann", .text "allUsers"] =
        .ok (Conversion.granted "viewer" [ann, ⟨.allUsers, none⟩, ann]) := by
  intro ann wire
  have hspells : Identity.Spells ("user" ++ ":" ++ "ann") ann :=
    .valued (by decide) (by decide) (by decide)
  have hdecode : (Conversion.decode .canonical ⟨1, [wire], []⟩).result =
      .ok ⟨[Conversion.granted "viewer" [ann, ⟨.allUsers, none⟩, ann]], none, 1⟩ := rfl
  refine ⟨?_, ?_, hdecode, ?_⟩
  · refine ((Binding.of_outcome _ _ _).2.1 _).mpr
      ⟨[.absent, .text "user:ann"], "user", _, rfl, fun earlier hm => ?_, rfl⟩
    simp only [List.mem_cons, reduceCtorEq, IdentityInput.text.injEq, List.not_mem_nil, or_false,
      false_or] at hm
    exact hm ▸ ⟨ann, hspells⟩
  · obtain ⟨_, ⟨set, hset, hmem⟩, _⟩ := (Binding.of_outcome (.value none)
      [.text "user:ann", .absent, .value ann] (some {})).2.2.1 _ rfl
    exact ⟨_, set, rfl, hset, (hmem _).mpr ⟨.value ann, by decide, .value ann⟩,
      (hmem _).mpr ⟨.absent, by decide, .absent⟩⟩
  · obtain ⟨name, set, hrole, hset, _, hagain⟩ := (Binding.of_outcome (.name "viewer") [] none).2.2.2.1
      _ _ hdecode _ List.mem_cons_self
    cases hrole
    cases hset
    refine hagain [⟨.allUsers, none⟩, ann, ⟨.allUsers, none⟩] fun identity => ?_
    simp only [OrderedSet.mem_ofList, List.map_cons, List.map_nil, List.mem_cons,
      Option.some.injEq, List.not_mem_nil, or_false]
    constructor <;> rintro (rfl | rfl | rfl) <;> simp

end AccessPolicy
