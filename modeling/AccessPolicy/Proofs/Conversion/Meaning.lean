import AccessPolicy.Proofs.Conversion.Decoding
import AccessPolicy.Proofs.Conversion.Encoding

/-!
# Messages of one meaning

Different messages can be decoded to the same policy. They then agree in version, etag and number
of bindings, and bindings at the same place list the same members and name the same role, which
may be left short in one of them. Nothing else is forgotten, except that conditions never matter.
-/

namespace AccessPolicy

namespace Role

/-- Whether a role name is what a short name is completed to. -/
def Completes (full short : String) : Prop :=
  full = "roles/" ++ short ∧
    ¬∃ home ∈ ["roles/", "projects/", "organizations/"], home.toList <+: short.toList

/-- Two names are completed alike only if they are the same or one is the other's completion. -/
theorem qualify_eq_iff {a b : String} :
    qualify a = qualify b ↔ a = b ∨ Completes a b ∨ Completes b a := by
  have hcompletes (full short : String) :
      Completes full short ↔ isQualified short = false ∧ full = qualify short := by
    rw [Completes, ← isQualified_iff, Bool.not_eq_true, and_comm]
    refine and_congr_right fun hshort => ?_
    rw [qualify, hshort]
    rfl
  rw [hcompletes, hcompletes]
  constructor
  · intro h
    cases ha : isQualified a with
    | false =>
      cases hb : isQualified b with
      | false =>
        rw [qualify, qualify, ha, hb] at h
        exact Or.inl ((String.append_right_inj predefined).mp h)
      | true =>
        rw [qualify, qualify, if_pos hb] at h
        exact Or.inr (Or.inr ⟨rfl, h.symm⟩)
    | true =>
      rw [qualify, if_pos ha] at h
      cases hb : isQualified b with
      | false => exact Or.inr (Or.inl ⟨rfl, h⟩)
      | true =>
        rw [qualify, if_pos hb] at h
        exact Or.inl h
  · rintro (rfl | ⟨_, rfl⟩ | ⟨_, rfl⟩)
    · rfl
    · exact qualify_qualify b
    · exact (qualify_qualify a).symm

end Role

/-- Whether two wire bindings grant the same role to the same members. -/
structure Wire.Binding.SameGrant (a b : Wire.Binding) : Prop where
  /-- The role names are the same, or one is what the other is completed to. -/
  role : a.role = b.role ∨ Role.Completes a.role b.role ∨ Role.Completes b.role a.role
  /-- The members are the same, in whatever order and number. -/
  members : ∀ text, text ∈ a.members ↔ text ∈ b.members

namespace Conversion

/-- Grants are equal exactly if their role names are completed alike and their identities are the
same. -/
theorem granted_eq_iff {role role' : String} {read read' : List Identity} :
    granted role read = granted role' read' ↔
      Role.qualify role = Role.qualify role' ∧ ∀ identity, identity ∈ read ↔ identity ∈ read' := by
  constructor
  · intro h
    refine ⟨?_, fun identity => ?_⟩
    · have hrole := congrArg Binding.role h
      simpa only [granted, Role.ofName, Option.some.injEq, Role.mk.injEq] using hrole
    · have hmem : identity ∈ (granted role read).members ↔ identity ∈ read := mem_members_granted
      rw [← hmem, h, mem_members_granted]
  · rintro ⟨hrole, hread⟩
    have hset : OrderedSet.ofList (read.map some) = OrderedSet.ofList (read'.map some) := by
      refine OrderedSet.ext fun member => ?_
      simp only [OrderedSet.mem_ofList, List.mem_map, hread]
    rw [granted, granted, hset, Role.ofName, hrole]
    rfl

/-- Wire bindings are decoded to the same binding exactly if they grant the same. -/
theorem decodeBinding_eq_iff {a b : Wire.Binding} {left right : Binding}
    (ha : decodeBinding .canonical a = .ok left) (hb : decodeBinding .canonical b = .ok right) :
    left = right ↔ a.SameGrant b := by
  obtain ⟨read, _, ht, rfl⟩ := decodeBinding_canonical_eq_ok_iff.mp ha
  obtain ⟨read', _, ht', rfl⟩ := decodeBinding_canonical_eq_ok_iff.mp hb
  have hmem : (∀ identity, identity ∈ read ↔ identity ∈ read') ↔
      ∀ text, text ∈ a.members ↔ text ∈ b.members := by
    rw [ht, ht']
    constructor
    · intro h text
      simp only [List.mem_map, h]
    · intro h identity
      rw [← List.mem_map_of_injective Identity.text_injective, h,
        List.mem_map_of_injective Identity.text_injective]
  rw [granted_eq_iff, Role.qualify_eq_iff, hmem]
  exact ⟨fun ⟨hr, hm⟩ => ⟨hr, hm⟩, fun ⟨hr, hm⟩ => ⟨hr, hm⟩⟩

/-- Lists of wire bindings are decoded to the same bindings exactly if they grant the same at
every place. -/
theorem mapM_decodeBinding_eq_iff {as bs : List Wire.Binding} {lefts rights : List Binding}
    (ha : as.mapM (decodeBinding .canonical) = .ok lefts)
    (hb : bs.mapM (decodeBinding .canonical) = .ok rights) :
    lefts = rights ↔ List.Forall₂ Wire.Binding.SameGrant as bs := by
  rw [mapM_eq_ok_iff] at ha hb
  induction ha generalizing bs rights with
  | nil =>
    cases hb with
    | nil => exact ⟨fun _ => .nil, fun _ => rfl⟩
    | cons _ _ => simp only [reduceCtorEq, List.forall₂_nil_left_iff]
  | cons hfirst _ ih =>
    cases hb with
    | nil => simp only [reduceCtorEq, List.forall₂_nil_right_iff]
    | cons hfirst' hrest' =>
      rw [List.cons.injEq, List.forall₂_cons, decodeBinding_eq_iff hfirst hfirst', ih hrest']

/-- Different octets are decoded to different etags. -/
theorem decodeEtag_injective : Function.Injective decodeEtag := by
  intro a b h
  have hb := encodeEtag_decodeEtag b
  rw [← h, encodeEtag_decodeEtag, Except.ok.injEq] at hb
  exact hb

/-- Lists of wire bindings with the same roles and members are decoded alike. -/
private theorem mapM_decodeBinding_congr {parse : Parse} {as bs : List Wire.Binding}
    (h : List.Forall₂ (fun a b => a.role = b.role ∧ a.members = b.members) as bs) :
    as.mapM (decodeBinding parse) = bs.mapM (decodeBinding parse) := by
  induction h with
  | nil => rfl
  | @cons a b _ _ hfirst _ ih =>
    have hdecode : decodeBinding parse a = decodeBinding parse b := by
      rw [decodeBinding, decodeBinding, hfirst.1, hfirst.2]
    rw [List.mapM_cons, List.mapM_cons, hdecode, ih]

/-- Two messages are decoded to the same policy exactly if they agree in version and etag and
grant the same at every place. Whatever reads the members, conditions make no difference. -/
theorem decode_eq_iff {first second : Wire.Message} {left right : Policy}
    (hfirst : (decode .canonical first).result = .ok left)
    (hsecond : (decode .canonical second).result = .ok right) :
    (left = right ↔ first.version = second.version ∧ first.etag = second.etag ∧
      List.Forall₂ Wire.Binding.SameGrant first.bindings second.bindings) ∧
    ∀ (parse : Parse) (other : Wire.Message), other.version = first.version →
      other.etag = first.etag →
      List.Forall₂ (fun a b => a.role = b.role ∧ a.members = b.members)
        other.bindings first.bindings →
      decode parse other = decode parse first := by
  obtain ⟨hb, _, he, hv⟩ := decode_eq_ok_iff.mp hfirst
  obtain ⟨hb', _, he', hv'⟩ := decode_eq_ok_iff.mp hsecond
  constructor
  · rw [← mapM_decodeBinding_eq_iff hb hb', ← decodeEtag_injective.eq_iff, ← he, ← he', ← hv, ← hv']
    cases left
    cases right
    rw [Policy.mk.injEq]
    constructor
    · rintro ⟨hbs, hes, hvs⟩
      exact ⟨hvs, hes, hbs⟩
    · rintro ⟨hvs, hes, hbs⟩
      exact ⟨hbs, hes, hvs⟩
  · intro parse other hversion hetag hbindings
    rw [decode, decode, mapM_decodeBinding_congr hbindings, hversion, hetag]

/-- A short role name, a repeated member and a condition leave the policy as it is. -/
theorem decode_eq_viewer :
    (decode .canonical ⟨1, [⟨"viewer", ["user:a", "allUsers", "user:a"], some {}⟩], [65]⟩).result =
        .ok ⟨[granted "viewer" [⟨.user, some "a"⟩, ⟨.allUsers, none⟩, ⟨.user, some "a"⟩]],
          some "QQ==", 1⟩ ∧
      (decode .canonical ⟨1, [⟨"roles/viewer", ["allUsers", "user:a"], none⟩], [65]⟩).result =
        .ok ⟨[granted "roles/viewer" [⟨.allUsers, none⟩, ⟨.user, some "a"⟩]], some "QQ==", 1⟩ ∧
      (⟨[granted "viewer" [⟨.user, some "a"⟩, ⟨.allUsers, none⟩, ⟨.user, some "a"⟩]],
          some "QQ==", 1⟩ : Policy) =
        ⟨[granted "roles/viewer" [⟨.allUsers, none⟩, ⟨.user, some "a"⟩]], some "QQ==", 1⟩ := by
  have hshort : (decode .canonical
      ⟨1, [⟨"viewer", ["user:a", "allUsers", "user:a"], some {}⟩], [65]⟩).result =
        .ok ⟨[granted "viewer" [⟨.user, some "a"⟩, ⟨.allUsers, none⟩, ⟨.user, some "a"⟩]],
          some "QQ==", 1⟩ := rfl
  have hfull : (decode .canonical
      ⟨1, [⟨"roles/viewer", ["allUsers", "user:a"], none⟩], [65]⟩).result =
        .ok ⟨[granted "roles/viewer" [⟨.allUsers, none⟩, ⟨.user, some "a"⟩]],
          some "QQ==", 1⟩ := rfl
  refine ⟨hshort, hfull, (decode_eq_iff hshort hfull).1.mpr ⟨rfl, rfl, .cons ⟨?_, ?_⟩ .nil⟩⟩
  · exact Or.inr (Or.inr ⟨rfl, by decide⟩)
  · simp only [List.mem_cons, List.not_mem_nil, or_false]
    intro text
    constructor
    · rintro (rfl | rfl | rfl)
      · exact Or.inr rfl
      · exact Or.inl rfl
      · exact Or.inr rfl
    · rintro (rfl | rfl)
      · exact Or.inr (Or.inl rfl)
      · exact Or.inl rfl

end Conversion

end AccessPolicy
