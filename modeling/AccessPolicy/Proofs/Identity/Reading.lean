import AccessPolicy.Identity
import AccessPolicy.Proofs.Outcome
import Mathlib.Data.List.TakeWhile

/-!
# Reading identities

Reading is the inverse of writing on canonical identities. Since no kind has a colon in its name,
splitting a written identity at the first colon gives back its kind and its value, whatever the
value is: different identities have different texts. What is read is canonical, and it is written
as the text it came from. The text of an identity that is not canonical has a flaw.
-/

namespace AccessPolicy.Identity

/-! ## Splitting at the first colon -/

/-- Whether something can follow the name of the kind in a text: nothing, or a colon and more. -/
def IsFollowing (following : List Char) : Prop :=
  following = [] ∨ ∃ rest, following = ':' :: rest

/-- What has no colon and what can follow it are told apart by the first colon. -/
theorem split_append {name following : List Char} (hn : ':' ∉ name) (hf : IsFollowing following) :
    (name ++ following).takeWhile (· ≠ ':') = name ∧
      (name ++ following).dropWhile (· ≠ ':') = following := by
  have hname : ∀ c ∈ name, decide (c ≠ ':') = true := by
    intro c hc
    exact decide_eq_true fun he => hn (he ▸ hc)
  have hstop : following.takeWhile (· ≠ ':') = [] ∧ following.dropWhile (· ≠ ':') = following := by
    rcases hf with rfl | ⟨rest, rfl⟩
    · exact ⟨rfl, rfl⟩
    · exact ⟨List.takeWhile_cons_of_neg (by decide), List.dropWhile_cons_of_neg (by decide)⟩
  rw [List.takeWhile_append_of_pos hname, List.dropWhile_append_of_pos hname, hstop.1, hstop.2,
    List.append_nil]
  exact ⟨rfl, rfl⟩

/-- There is only one way to split a text before its first colon. -/
theorem split_unique {name name' following following' : List Char} (hn : ':' ∉ name)
    (hf : IsFollowing following) (hn' : ':' ∉ name') (hf' : IsFollowing following')
    (h : name ++ following = name' ++ following') : name = name' ∧ following = following' := by
  obtain ⟨ht, hd⟩ := split_append hn hf
  obtain ⟨ht', hd'⟩ := split_append hn' hf'
  rw [h] at ht hd
  exact ⟨ht.symm.trans ht', hd.symm.trans hd'⟩

/-- Every text is split at its first colon. -/
theorem exists_split (text : String) :
    ∃ name following, text.toList = name ++ following ∧ ':' ∉ name ∧ IsFollowing following := by
  refine ⟨text.toList.takeWhile (· ≠ ':'), text.toList.dropWhile (· ≠ ':'),
    List.takeWhile_append_dropWhile.symm, fun hm => ?_, ?_⟩
  · have hc := List.mem_takeWhile_imp hm
    exact of_decide_eq_true hc rfl
  · cases hd : text.toList.dropWhile (· ≠ ':') with
    | nil => exact Or.inl rfl
    | cons c rest =>
      have hne : text.toList.dropWhile (· ≠ ':') ≠ [] := by
        rw [hd]
        exact List.cons_ne_nil c rest
      have hc := List.head_dropWhile_not (fun c => decide (c ≠ ':')) hne
      simp only [hd, List.head_cons, decide_eq_false_iff_not, not_not] at hc
      exact Or.inr ⟨rest, by rw [hc]⟩

/-- A text is read by what stands before its first colon and by what follows. -/
theorem ofText_of_split {text : String} {name following : List Char}
    (h : text.toList = name ++ following) (hn : ':' ∉ name) (hf : IsFollowing following) :
    ofText text = if 1 < following.count ':' then .error ⟨.manyColons, text⟩
      else (ofParts name following).mapError (⟨·, text⟩) := by
  obtain ⟨ht, hd⟩ := split_append hn hf
  have hcount : (name ++ following).count ':' = following.count ':' := by
    rw [List.count_append, List.count_eq_zero_of_not_mem hn, Nat.zero_add]
  simp only [ofText, h, ht, hd, hcount]

/-! ## What is written -/

/-- What follows the name of the kind in the text of an identity. -/
def following (identity : Identity) : List Char :=
  match identity.value with
  | none => []
  | some value => ':' :: value.toList

/-- It is something that can follow. -/
theorem isFollowing_following (identity : Identity) : IsFollowing identity.following := by
  unfold following
  cases identity.value with
  | none => exact Or.inl rfl
  | some value => exact Or.inr ⟨value.toList, rfl⟩

/-- The text of an identity is the name of its kind and what follows it. -/
theorem toList_text (identity : Identity) :
    identity.text.toList = identity.kind.name.toList ++ identity.following := by
  obtain ⟨kind, value⟩ := identity
  cases value with
  | none => exact (List.append_nil _).symm
  | some value =>
    simp only [text, following, String.toList_append, List.append_assoc]
    rfl

/-- Different identities have different texts, canonical or not. -/
theorem text_injective : Function.Injective text := by
  intro a b h
  rw [← String.toList_inj, toList_text, toList_text] at h
  obtain ⟨hname, hfollowing⟩ := split_unique a.kind.colon_notMem_name a.isFollowing_following
    b.kind.colon_notMem_name b.isFollowing_following h
  have hkind := Kind.name_inj.mp (String.toList_inj.mp hname)
  obtain ⟨kind, value⟩ := a
  obtain ⟨kind', value'⟩ := b
  simp only at hkind
  subst hkind
  cases value <;> cases value' <;>
    simp only [following, reduceCtorEq, List.cons.injEq, true_and, String.toList_inj] at hfollowing
  · rfl
  · rw [hfollowing]

/-- The flaw of the text of an identity, which a canonical identity does not have. -/
def flaw? (identity : Identity) : Option Flaw :=
  match identity.value with
  | none => if identity.kind.isPublic then none else some .valueRequired
  | some value =>
    if ':' ∈ value.toList then some .manyColons
    else if identity.kind.isPublic then some .valueNotTaken
    else if value = "" then some .valueEmpty
    else none

/-- An identity is canonical exactly if its text has no flaw. -/
theorem flaw?_eq_none_iff {identity : Identity} :
    identity.flaw? = none ↔ identity.IsCanonical := by
  obtain ⟨kind, value⟩ := identity
  cases value with
  | none => simp only [flaw?, IsCanonical, ite_eq_left_iff, reduceCtorEq, imp_false, not_not]
  | some value =>
    simp only [flaw?, IsCanonical]
    by_cases hv : ':' ∈ value.toList
    · simp only [hv, if_true, reduceCtorEq, not_true_eq_false, and_false]
    · cases kind.isPublic with
      | true => simp only [hv, if_false, if_true, reduceCtorEq, Bool.true_eq_false, false_and]
      | false =>
        simp only [hv, if_false, Bool.false_eq_true, ite_eq_right_iff, reduceCtorEq, imp_false,
          ne_eq, not_false_eq_true, true_and, and_true]

/-- The text of an identity is read as this identity, unless it has a flaw. Then it is refused for
the flaw. -/
theorem ofText_text_eq (identity : Identity) :
    ofText identity.text =
      match identity.flaw? with
      | none => .ok identity
      | some flaw => .error ⟨flaw, identity.text⟩ := by
  rw [ofText_of_split identity.toList_text identity.kind.colon_notMem_name
    identity.isFollowing_following]
  obtain ⟨kind, value⟩ := identity
  cases value with
  | none =>
    cases hp : kind.isPublic <;>
      simp only [following, List.count_nil, Nat.not_lt_zero, if_false, ofParts,
        String.ofList_toList, Kind.ofName?_name, hp, if_true, Bool.false_eq_true, flaw?,
        Except.mapError]
  | some value =>
    have hmany : 1 < (':' :: value.toList).count ':' ↔ ':' ∈ value.toList := by
      rw [List.count_cons_self, ← List.count_pos_iff]
      omega
    have hempty : value.toList.isEmpty = true ↔ value = "" := by
      rw [List.isEmpty_iff, String.toList_eq_nil_iff]
    simp only [following, hmany, ofParts, String.ofList_toList, Kind.ofName?_name, flaw?, hempty]
    by_cases hv : ':' ∈ value.toList
    · simp only [hv, if_true]
    · cases kind.isPublic with
      | true => simp only [hv, if_false, if_true, Except.mapError]
      | false =>
        simp only [hv, if_false, Bool.false_eq_true]
        by_cases he : value = ""
        · rw [if_pos he, if_pos he]
          rfl
        · rw [if_neg he, if_neg he]
          rfl

/-- A canonical identity is read back from its text. -/
theorem ofText_text {identity : Identity} (hc : identity.IsCanonical) :
    ofText identity.text = .ok identity := by
  rw [ofText_text_eq, flaw?_eq_none_iff.mpr hc]

/-! ## What is read -/

/-- What the two parts of a text are read as is canonical and has that text. -/
private theorem of_ofParts_eq_ok {name following : List Char} {identity : Identity}
    (hf : following = [] ∨ ∃ rest, following = ':' :: rest ∧ ':' ∉ rest)
    (h : ofParts name following = .ok identity) :
    identity.IsCanonical ∧ identity.text.toList = name ++ following := by
  unfold ofParts at h
  split at h
  · cases h
  · rename_i kind hk
    have hname : kind.name.toList = name := by
      rw [Kind.ofName?_eq_some_iff.mp hk, String.toList_ofList]
    rcases hf with rfl | ⟨rest, rfl, hr⟩
    · simp only at h
      split at h
      · rename_i hp
        cases h
        exact ⟨hp, by rw [List.append_nil]; exact hname⟩
      · cases h
    · simp only at h
      split at h
      · cases h
      · rename_i hp
        split at h
        · cases h
        · rename_i hne
          cases h
          refine ⟨⟨by simpa using hp, ?_, by rwa [String.toList_ofList]⟩, ?_⟩
          · intro he
            have hnil := String.toList_eq_nil_iff.mpr he
            rw [String.toList_ofList] at hnil
            exact hne (by rw [hnil]; rfl)
          · simp only [text, String.toList_append, String.toList_ofList, hname,
              List.append_assoc]
            rfl

/-- What is read from a text is canonical and has that text. -/
theorem of_ofText_eq_ok {given : String} {identity : Identity}
    (h : ofText given = .ok identity) : identity.IsCanonical ∧ identity.text = given := by
  obtain ⟨name, following, hsplit, hn, hf⟩ := exists_split given
  rw [ofText_of_split hsplit hn hf] at h
  split at h
  · cases h
  · rename_i hcount
    have hplain : following = [] ∨ ∃ rest, following = ':' :: rest ∧ ':' ∉ rest := by
      refine hf.imp_right fun ⟨rest, hrest⟩ => ⟨rest, hrest, fun hm => hcount ?_⟩
      have hpos := List.count_pos_iff.mpr hm
      rw [hrest, List.count_cons_self]
      omega
    obtain ⟨hc, ht⟩ := of_ofParts_eq_ok hplain (mapError_eq_ok_iff.mp h)
    exact ⟨hc, String.toList_inj.mp (ht.trans hsplit.symm)⟩

/-- A text is read as an identity exactly when the identity is canonical and has that text. -/
theorem ofText_eq_ok_iff {given : String} {identity : Identity} :
    ofText given = .ok identity ↔ identity.IsCanonical ∧ identity.text = given := by
  constructor
  · exact of_ofText_eq_ok
  · rintro ⟨hc, rfl⟩
    exact ofText_text hc

end AccessPolicy.Identity
