import AccessPolicy.Proofs.Identity.Reading

/-!
# The grammar of identities

A text stands for an identity if it is the name of one of the two public kinds, or the name of
another kind, a colon and a value that is not empty and has no colon. Exactly these texts are read.
In any other text several things can be wrong at once, and the first of them is reported. Since the
text of an identity is never that of another one, it is read as this identity or not at all.
-/

namespace AccessPolicy.Identity

/-- The names of the public kinds, which take no value. -/
def publicNames : List String := ["allUsers", "allAuthenticatedUsers"]

/-- The kinds that take a value, with their names. -/
def valuedKinds : List (String × Kind) :=
  [("user", .user), ("serviceAccount", .serviceAccount), ("group", .group), ("domain", .domain),
    ("projectOwner", .projectOwner), ("projectEditor", .projectEditor),
    ("projectViewer", .projectViewer)]

/-- Which texts stand for which identities. -/
inductive Spells : String → Identity → Prop where
  /-- Everyone. -/
  | everyone : Spells "allUsers" ⟨.allUsers, none⟩
  /-- Everyone who has signed in. -/
  | signedIn : Spells "allAuthenticatedUsers" ⟨.allAuthenticatedUsers, none⟩
  /-- The principal of a kind with a value. -/
  | valued {name value : String} {kind : Kind} (listed : (name, kind) ∈ valuedKinds)
      (nonempty : value ≠ "") (plain : ':' ∉ value.toList) :
      Spells (name ++ ":" ++ value) ⟨kind, some value⟩

/-- All flaws, in the order in which they are looked for. -/
def Flaw.all : List Flaw :=
  [.manyColons, .unknownKind, .valueRequired, .valueNotTaken, .valueEmpty]

/-- Whether a text has a flaw, whatever others it has. -/
def Flaw.IsIn (text : String) : Flaw → Prop
  | .manyColons => 1 < text.toList.count ':'
  | .unknownKind => ∀ name ∈ publicNames ++ valuedKinds.map Prod.fst,
      text ≠ name ∧ ¬(name ++ ":").toList <+: text.toList
  | .valueRequired => ':' ∉ text.toList ∧ text ∉ publicNames
  | .valueNotTaken => ∃ name ∈ publicNames, (name ++ ":").toList <+: text.toList
  | .valueEmpty => text.toList.getLast? = some ':'

instance (text : String) (flaw : Flaw) : Decidable (flaw.IsIn text) := by
  cases flaw <;> unfold Flaw.IsIn <;> infer_instance

/-! ## What is read -/

/-- A kind is public exactly if it is one of the two. -/
theorem isPublic_iff {kind : Kind} :
    kind.isPublic = true ↔ kind = .allUsers ∨ kind = .allAuthenticatedUsers := by
  cases kind <;> decide

/-- A kind is public exactly if its name is that of a public kind. -/
theorem name_mem_publicNames_iff {kind : Kind} :
    kind.name ∈ publicNames ↔ kind.isPublic = true := by
  cases kind <;> decide

/-- The kinds that take a value are listed with their names. -/
theorem mem_valuedKinds_iff {name : String} {kind : Kind} :
    (name, kind) ∈ valuedKinds ↔ kind.isPublic = false ∧ kind.name = name := by
  cases kind <;> simp [valuedKinds, Kind.isPublic, Kind.name, eq_comm]

/-- The names of all kinds are those of the public kinds and of the kinds that take a value. -/
theorem mem_names_iff {name : String} :
    name ∈ publicNames ++ valuedKinds.map Prod.fst ↔ ∃ kind : Kind, kind.name = name := by
  have hperm : (publicNames ++ valuedKinds.map Prod.fst).Perm (Kind.all.map Kind.name) := by decide
  rw [hperm.mem_iff, List.mem_map]
  exact exists_congr fun kind => and_iff_right kind.mem_all

/-- A text is read as exactly the identity that it stands for. -/
theorem ofText_eq_ok_iff_spells {given : String} {identity : Identity} :
    ofText given = .ok identity ↔ Spells given identity := by
  rw [ofText_eq_ok_iff]
  constructor
  · rintro ⟨hc, rfl⟩
    obtain ⟨kind, value⟩ := identity
    cases value with
    | none =>
      rcases isPublic_iff.mp hc with rfl | rfl
      · exact .everyone
      · exact .signedIn
    | some value =>
      obtain ⟨hp, hne, hv⟩ : kind.isPublic = false ∧ value ≠ "" ∧ ':' ∉ value.toList := hc
      exact .valued (mem_valuedKinds_iff.mpr ⟨hp, rfl⟩) hne hv
  · intro h
    cases h with
    | everyone => exact ⟨rfl, rfl⟩
    | signedIn => exact ⟨rfl, rfl⟩
    | valued listed nonempty plain =>
      obtain ⟨hp, rfl⟩ := mem_valuedKinds_iff.mp listed
      exact ⟨⟨hp, nonempty, plain⟩, rfl⟩

/-! ## What is refused -/

section Split

variable {given name : String} {before following : List Char}
  (hsplit : given.toList = before ++ following) (hb : ':' ∉ before) (hf : IsFollowing following)
  (hn : ':' ∉ name.toList)

include hsplit hb hf hn

/-- A text is a name exactly if the name stands before its first colon and nothing follows. -/
theorem eq_iff_of_split : given = name ↔ before = name.toList ∧ following = [] := by
  rw [← String.toList_inj, hsplit]
  constructor
  · intro h
    exact split_unique hb hf hn (Or.inl rfl) (h.trans (List.append_nil _).symm)
  · rintro ⟨rfl, rfl⟩
    exact List.append_nil _

/-- A text begins with a name and a colon exactly if the name stands before its first colon and
something follows. -/
theorem prefix_iff_of_split :
    (name ++ ":").toList <+: given.toList ↔ before = name.toList ∧ following ≠ [] := by
  rw [hsplit, show (name ++ ":").toList = name.toList ++ [':'] from String.toList_append]
  constructor
  · rintro ⟨rest, h⟩
    rw [List.append_assoc] at h
    obtain ⟨hname, hfollowing⟩ := split_unique hn (Or.inr ⟨rest, rfl⟩) hb hf h
    exact ⟨hname.symm, hfollowing ▸ List.cons_ne_nil ':' rest⟩
  · rintro ⟨rfl, hne⟩
    rcases hf with rfl | ⟨rest, rfl⟩
    · exact absurd rfl hne
    · exact ⟨rest, List.append_assoc _ _ _⟩

end Split

/-- No name of a kind has a colon. -/
theorem colon_notMem_of_mem_names {name : String}
    (h : name ∈ publicNames ++ valuedKinds.map Prod.fst) : ':' ∉ name.toList := by
  obtain ⟨kind, rfl⟩ := mem_names_iff.mp h
  exact kind.colon_notMem_name

section Refused

variable {given : String} {before following : List Char}
  (hsplit : given.toList = before ++ following) (hb : ':' ∉ before) (hf : IsFollowing following)

include hsplit hb

/-- There are many colons exactly if there are many from the first one on. -/
theorem manyColons_isIn_iff : Flaw.manyColons.IsIn given ↔ 1 < following.count ':' := by
  rw [Flaw.IsIn, hsplit, List.count_append, List.count_eq_zero_of_not_mem hb, Nat.zero_add]

include hf

/-- The kind is unknown exactly if what stands before the first colon is not the name of one. -/
theorem unknownKind_isIn_iff :
    Flaw.unknownKind.IsIn given ↔ ∀ kind : Kind, kind.name.toList ≠ before := by
  rw [Flaw.IsIn]
  constructor
  · intro h kind hk
    have hcolon := kind.colon_notMem_name
    obtain ⟨hne, hprefix⟩ := h kind.name (mem_names_iff.mpr ⟨kind, rfl⟩)
    rw [ne_eq, eq_iff_of_split hsplit hb hf hcolon] at hne
    rw [prefix_iff_of_split hsplit hb hf hcolon] at hprefix
    by_cases hnothing : following = []
    · exact hne ⟨hk.symm, hnothing⟩
    · exact hprefix ⟨hk.symm, hnothing⟩
  · intro h name hname
    have hcolon := colon_notMem_of_mem_names hname
    obtain ⟨kind, rfl⟩ := mem_names_iff.mp hname
    rw [ne_eq, eq_iff_of_split hsplit hb hf hcolon, prefix_iff_of_split hsplit hb hf hcolon]
    exact ⟨fun hk => h kind hk.1.symm, fun hk => h kind hk.1.symm⟩

variable {kind : Kind} (hk : before = kind.name.toList)

include hk

/-- A value is missing exactly if nothing follows the name of a kind that is not public. -/
theorem valueRequired_isIn_iff :
    Flaw.valueRequired.IsIn given ↔ following = [] ∧ kind.isPublic = false := by
  have hcolon : ':' ∉ given.toList ↔ following = [] := by
    rw [hsplit, List.mem_append, not_or]
    constructor
    · rintro ⟨_, hm⟩
      exact hf.resolve_right fun ⟨rest, hrest⟩ => hm (hrest ▸ List.mem_cons_self)
    · rintro rfl
      exact ⟨hb, List.not_mem_nil⟩
  rw [Flaw.IsIn, hcolon]
  refine and_congr_right fun hnothing => ?_
  have hgiven : given = kind.name :=
    (eq_iff_of_split hsplit hb hf kind.colon_notMem_name).mpr ⟨hk, hnothing⟩
  rw [hgiven, name_mem_publicNames_iff, Bool.not_eq_true]

/-- A value is not taken exactly if something follows the name of a public kind. -/
theorem valueNotTaken_isIn_iff :
    Flaw.valueNotTaken.IsIn given ↔ following ≠ [] ∧ kind.isPublic = true := by
  rw [Flaw.IsIn, ← name_mem_publicNames_iff]
  constructor
  · rintro ⟨name, hname, hprefix⟩
    have hcolon := colon_notMem_of_mem_names (List.mem_append_left _ hname)
    obtain ⟨hbefore, hne⟩ := (prefix_iff_of_split hsplit hb hf hcolon).mp hprefix
    rw [← String.toList_inj.mp (hbefore.symm.trans hk)]
    exact ⟨hne, hname⟩
  · rintro ⟨hne, hname⟩
    have hcolon := kind.colon_notMem_name
    exact ⟨kind.name, hname, (prefix_iff_of_split hsplit hb hf hcolon).mpr ⟨hk, hne⟩⟩

end Refused

/-- A text with no more than one colon is refused for its first flaw. -/
theorem first_of_ofParts_eq_error {given : String} {before following : List Char} {flaw : Flaw}
    (hsplit : given.toList = before ++ following) (hb : ':' ∉ before) (hf : IsFollowing following)
    (hone : ¬Flaw.manyColons.IsIn given) (h : ofParts before following = .error flaw) :
    Flaw.all.find? (fun flaw => flaw.IsIn given) = some flaw := by
  unfold ofParts at h
  split at h
  · rename_i hnone
    cases h
    have hunknown : Flaw.unknownKind.IsIn given := by
      refine (unknownKind_isIn_iff hsplit hb hf).mpr fun kind hk => ?_
      rw [← hk, String.ofList_toList, Kind.ofName?_name] at hnone
      cases hnone
    simp only [Flaw.all, List.find?_cons, hone, hunknown, decide_false, decide_true]
  · rename_i kind hkind
    have hk : before = kind.name.toList := by
      rw [Kind.ofName?_eq_some_iff.mp hkind, String.toList_ofList]
    have hknown : ¬Flaw.unknownKind.IsIn given := fun h =>
      (unknownKind_isIn_iff hsplit hb hf).mp h kind hk.symm
    have hrequired := valueRequired_isIn_iff hsplit hb hf hk
    have htaken := valueNotTaken_isIn_iff hsplit hb hf hk
    rcases hf with rfl | ⟨rest, rfl⟩
    · cases hp : kind.isPublic with
      | true =>
        simp only [hp, if_true, reduceCtorEq] at h
      | false =>
        simp only [hp, Bool.false_eq_true, if_false, Except.error.injEq] at h
        subst h
        simp only [Flaw.all, List.find?_cons, hone, hknown, hrequired, hp, and_self, decide_false,
          decide_true]
    · cases hp : kind.isPublic with
      | true =>
        simp only [hp, if_true, Except.error.injEq] at h
        subst h
        simp only [Flaw.all, List.find?_cons, hone, hknown, hrequired, htaken, hp, ne_eq,
          reduceCtorEq, not_false_eq_true, and_self, decide_false, decide_true]
      | false =>
        simp only [hp, Bool.false_eq_true, if_false] at h
        split at h
        · rename_i hempty
          cases h
          have hlast : Flaw.valueEmpty.IsIn given := by
            rw [Flaw.IsIn, hsplit, List.isEmpty_iff.mp hempty, List.getLast?_concat]
          simp only [Flaw.all, List.find?_cons, hone, hknown, hrequired, htaken, hlast, hp,
            reduceCtorEq, Bool.false_eq_true, false_and, and_false, decide_false, decide_true]
        · cases h

/-- A text that is not read is refused for its first flaw. -/
theorem first_of_ofText_eq_error {given : String} {unreadable : Unreadable}
    (h : ofText given = .error unreadable) :
    unreadable.text = given ∧
      Flaw.all.find? (fun flaw => flaw.IsIn given) = some unreadable.flaw := by
  obtain ⟨before, following, hsplit, hb, hf⟩ := exists_split given
  have hmany := manyColons_isIn_iff hsplit hb
  rw [ofText_of_split hsplit hb hf] at h
  split at h
  · rename_i hcolons
    cases h
    exact ⟨rfl, List.find?_cons_of_pos (decide_eq_true (hmany.mpr hcolons))⟩
  · rename_i hone
    cases hparts : ofParts before following with
    | ok identity =>
      rw [hparts] at h
      cases h
    | error flaw =>
      rw [hparts] at h
      cases h
      exact ⟨rfl, first_of_ofParts_eq_error hsplit hb hf (fun h => hone (hmany.mp h)) hparts⟩

/-- A text that stands for an identity has no flaw. -/
theorem Spells.not_isIn {given : String} {identity : Identity} (h : Spells given identity)
    (flaw : Flaw) : ¬flaw.IsIn given := by
  cases h with
  | everyone => cases flaw <;> decide
  | signedIn => cases flaw <;> decide
  | @valued name value kind listed nonempty plain =>
    obtain ⟨hp, rfl⟩ := mem_valuedKinds_iff.mp listed
    have hsplit : (kind.name ++ ":" ++ value).toList = kind.name.toList ++ ':' :: value.toList :=
      toList_text ⟨kind, some value⟩
    have hb := kind.colon_notMem_name
    have hf : IsFollowing (':' :: value.toList) := Or.inr ⟨value.toList, rfl⟩
    cases flaw with
    | manyColons =>
      rw [manyColons_isIn_iff hsplit hb, List.count_cons_self, List.count_eq_zero_of_not_mem plain]
      exact Nat.lt_irrefl 1
    | unknownKind =>
      rw [unknownKind_isIn_iff hsplit hb hf]
      exact fun h => h kind rfl
    | valueRequired =>
      rw [valueRequired_isIn_iff hsplit hb hf rfl]
      exact fun h => List.cons_ne_nil _ _ h.1
    | valueNotTaken =>
      rw [valueNotTaken_isIn_iff hsplit hb hf rfl, hp]
      exact fun h => Bool.false_ne_true h.2
    | valueEmpty =>
      have hne : value.toList ≠ [] := fun h => nonempty (String.toList_eq_nil_iff.mp h)
      rw [Flaw.IsIn, hsplit, List.getLast?_append_of_ne_nil _ (List.cons_ne_nil _ _),
        List.getLast?_cons_of_ne_nil hne]
      exact fun h => plain (List.mem_of_getLast? h)

/-- Exactly a text that stands for an identity is read, as this identity; the identity has this
text, and no other text is read as it. Any other text is refused for the first of its flaws, with
the report on this flaw. -/
theorem ofText_outcome (given : String) :
    let quoted := "\"" ++ given ++ "\""
    (∀ identity, ofText given = .ok identity ↔ Spells given identity) ∧
    (∀ identity, ofText given = .ok identity → identity.text = given) ∧
    (∀ identity other, ofText given = .ok identity → ofText other = .ok identity →
      other = given) ∧
    (∀ flaw text, ofText given = .error ⟨flaw, text⟩ ↔
      text = given ∧ Flaw.all.find? (fun flaw => flaw.IsIn given) = some flaw) ∧
    ((∀ identity, ¬Spells given identity) → ∃ flaw, ofText given = .error ⟨flaw, given⟩ ∧
      Unreadable.message ⟨flaw, given⟩ = match flaw with
        | .manyColons => "Illegal identity string: " ++ quoted
        | .unknownKind => "Unexpected identity type in " ++ quoted
        | .valueRequired => "Identity " ++ quoted ++ " requires a value"
        | .valueNotTaken => "Identity " ++ quoted ++ " does not take a value"
        | .valueEmpty => "Identity " ++ quoted ++ " has an empty value") := by
  intro quoted
  refine ⟨fun _ => ofText_eq_ok_iff_spells, fun identity h => (of_ofText_eq_ok h).2, ?_, ?_, ?_⟩
  · intro identity other h ho
    exact (of_ofText_eq_ok ho).2.symm.trans (of_ofText_eq_ok h).2
  · refine fun flaw text => ⟨first_of_ofText_eq_error, ?_⟩
    rintro ⟨rfl, hfirst⟩
    cases hread : ofText text with
    | ok identity =>
      have hflaw := List.find?_some hfirst
      exact absurd (of_decide_eq_true hflaw) ((ofText_eq_ok_iff_spells.mp hread).not_isIn flaw)
    | error unreadable =>
      obtain ⟨rfl, hother⟩ := first_of_ofText_eq_error hread
      rw [Option.some.inj (hfirst.symm.trans hother)]
  · intro hnone
    cases hread : ofText given with
    | ok identity => exact absurd (ofText_eq_ok_iff_spells.mp hread) (hnone identity)
    | error unreadable =>
      obtain ⟨flaw, text⟩ := unreadable
      obtain ⟨rfl, _⟩ := first_of_ofText_eq_error hread
      exact ⟨flaw, rfl, by cases flaw <;> rfl⟩

/-- Of two flaws the first is reported, and a value may well be the name of a kind. -/
theorem ofText_outcome_flawed :
    ofText "allUsers:" = .error ⟨.valueNotTaken, "allUsers:"⟩ ∧
    ofText "User:" = .error ⟨.unknownKind, "User:"⟩ ∧
    ofText "user::" = .error ⟨.manyColons, "user::"⟩ ∧
    ofText "user:user" = .ok ⟨.user, some "user"⟩ := by
  have hrefused (given : String) (flaw : Flaw)
      (h : Flaw.all.find? (fun flaw => flaw.IsIn given) = some flaw) :
      ofText given = .error ⟨flaw, given⟩ :=
    ((ofText_outcome given).2.2.2.1 flaw given).mpr ⟨rfl, h⟩
  have hspells : Spells ("user" ++ ":" ++ "user") ⟨.user, some "user"⟩ :=
    .valued (by decide) (by decide) (by decide)
  exact ⟨hrefused _ _ (by decide), hrefused _ _ (by decide), hrefused _ _ (by decide),
    ((ofText_outcome "user:user").1 _).mpr hspells⟩

/-- An identity is canonical exactly if it is of a public kind and has no value, or of another kind
and has a value that is not empty and has no colon. -/
theorem isCanonical_iff {identity : Identity} :
    identity.IsCanonical ↔
      ((identity.kind = .allUsers ∨ identity.kind = .allAuthenticatedUsers) ∧
        identity.value = none) ∨
      (identity.kind ≠ .allUsers ∧ identity.kind ≠ .allAuthenticatedUsers ∧
        ∃ value, identity.value = some value ∧ value ≠ "" ∧ ':' ∉ value.toList) := by
  obtain ⟨kind, value⟩ := identity
  have hpublic : kind.isPublic = false ↔ kind ≠ .allUsers ∧ kind ≠ .allAuthenticatedUsers := by
    rw [← not_or, ← isPublic_iff, Bool.not_eq_true]
  cases value with
  | none => simp only [IsCanonical, isPublic_iff, and_true, reduceCtorEq, false_and, exists_false,
      and_false, or_false]
  | some value => simp only [IsCanonical, hpublic, reduceCtorEq, and_false, Option.some.injEq,
      exists_eq_left', false_or, and_assoc]

/-- The text of an identity is read as this identity, or refused for the flaw that it has, and it is
read exactly if the identity is canonical. No other identity has the same text. -/
theorem ofText_text_outcome (identity : Identity) :
    (ofText identity.text = .ok identity ∨
      ∃ flaw, identity.flaw? = some flaw ∧ ofText identity.text = .error ⟨flaw, identity.text⟩) ∧
    (ofText identity.text = .ok identity ↔
      ((identity.kind = .allUsers ∨ identity.kind = .allAuthenticatedUsers) ∧
        identity.value = none) ∨
      (identity.kind ≠ .allUsers ∧ identity.kind ≠ .allAuthenticatedUsers ∧
        ∃ value, identity.value = some value ∧ value ≠ "" ∧ ':' ∉ value.toList)) ∧
    ∀ other : Identity, identity.text = other.text → identity = other := by
  refine ⟨?_, ?_, fun other h => text_injective h⟩
  · rw [ofText_text_eq]
    cases identity.flaw? with
    | none => exact Or.inl rfl
    | some flaw => exact Or.inr ⟨flaw, rfl, rfl⟩
  · rw [← isCanonical_iff, ofText_eq_ok_iff]
    exact and_iff_left rfl

/-- Everyone with the text of a user as a value is not taken for this user, and neither is a group
without a value for everyone. -/
theorem ofText_text_outcome_malformed :
    (∃ flaw, ofText "allUsers:user:ann" = .error ⟨flaw, "allUsers:user:ann"⟩) ∧
    ofText "group" ≠ .ok ⟨.group, none⟩ ∧
    ofText "domain:user" = .ok ⟨.domain, some "user"⟩ ∧
    text ⟨.allUsers, some "user:ann"⟩ ≠ text ⟨.allUsers, some "user"⟩ := by
  refine ⟨?_, ?_, ?_, ?_⟩
  · obtain ⟨hread | ⟨flaw, _, hrefused⟩, hiff, _⟩ :=
      ofText_text_outcome ⟨.allUsers, some "user:ann"⟩
    · exact absurd (hiff.mp hread) (by simp)
    · exact ⟨flaw, hrefused⟩
  · exact fun h => absurd ((ofText_text_outcome ⟨.group, none⟩).2.1.mp h) (by simp)
  · exact (ofText_text_outcome ⟨.domain, some "user"⟩).2.1.mpr (by decide)
  · exact fun h => absurd ((ofText_text_outcome _).2.2 _ h) (by decide)

end AccessPolicy.Identity
