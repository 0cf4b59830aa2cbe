import AccessPolicy.Proofs.Memory.Carrying
import AccessPolicy.Proofs.Memory.Sharing
import AccessPolicy.Session.Run

/-!
# Lists in memory

Callers change their lists in place, and the identity sets of the bindings in them too. Such a
change is the one that is made to the list as a value, and it keeps all other sequences as they are.
-/

namespace AccessPolicy.Memory

variable {m m' : Memory} {place set : Place} {objects : List (Option BindingObject)}
  {entries rest : List (Option Binding)}

/-- Whether the sequence at a place is a list of bindings whose identity sets can all grow. -/
structure IsList (m : Memory) (place : Place) (entries : List (Option Binding)) : Prop where
  /-- The bindings are the same. -/
  entries : m.entries place = entries
  /-- No set is frozen. -/
  free : ∀ set ∈ places (m.sequence place), m.frozen? set = some false

/-- What it means that nothing but the sequence at a place has changed. -/
structure ChangedAt (m m' : Memory) (place : Place) : Prop where
  /-- Bindings share frozen sets only. -/
  tidy : m'.Tidy
  /-- Everything else is kept. -/
  keeps : Keeps (some place) m m'

/-- A new list consists of the entries for which its objects were made. -/
theorem isList_newSequence (h : Made false m m' objects entries) :
    (m'.newSequence objects).2.IsList (m'.newSequence objects).1 entries := by
  refine ⟨h.entries_newSequence, fun set hset => ?_⟩
  rw [sequence_newSequence_self] at hset
  exact h.frozen? set hset

/-- Putting objects into one sequence leaves the others alone. -/
theorem sequence_setSequence (hp : place < m.sequences.length)
    (objects : List (Option BindingObject)) (other : Place) :
    (m.setSequence place objects).sequence other =
      if other = place then objects else m.sequence other := by
  rw [sequence, setSequence]
  split
  · rename_i h
    rw [h, List.getElem?_set_self hp, Option.getD_some]
  · rename_i h
    rw [List.getElem?_set_ne (Ne.symm h), sequence]

/-- No two bindings of a list share a set. -/
theorem IsList.nodup (h : m.IsList place entries) (hm : m.Tidy) :
    (places (m.sequence place)).Nodup := by
  refine (hm.once place).imp_of_mem fun {set other} hset _ hshared heq => ?_
  have hfrozen := hshared heq
  rw [h.free set hset] at hfrozen
  cases hfrozen

/-- New objects are appended to a list. -/
theorem append_spec (hm : m.Tidy) (hp : place < m.sequences.length) (hl : m.IsList place entries)
    (h : Made false m m' objects rest) :
    ChangedAt m (m'.setSequence place (m'.sequence place ++ objects)) place ∧
      (m'.setSequence place (m'.sequence place ++ objects)).IsList place (entries ++ rest) := by
  rw [h.sequence_eq]
  have hs (other : Place) : (m'.setSequence place (m.sequence place ++ objects)).sequence other =
      if other = place then m.sequence place ++ objects else m.sequence other := by
    rw [sequence_setSequence (h.sequences ▸ hp), h.sequence_eq]
  have he : m.Extends (m'.setSequence place (m.sequence place ++ objects)) := h.extends_
  have hfree : ∀ set ∈ places (m.sequence place ++ objects), m'.frozen? set = some false := by
    intro set hset
    rcases List.mem_append.mp (places_append _ _ ▸ hset) with hset | hset
    · rw [hm.frozen?_eq h.extends_ hset, hl.free set hset]
    · exact h.frozen? set hset
  refine ⟨⟨hm.write he hs (fun set hset => lt_length_of_frozen? (hfree set hset)) ?_ ?_,
    .write hm he hs ?_⟩, ?_, ?_⟩
  · have hnodup : (places (m.sequence place ++ objects)).Nodup := by
      rw [places_append, List.nodup_append]
      refine ⟨hl.nodup hm, h.once rfl, fun set hset other ho heq => ?_⟩
      exact absurd (heq ▸ hm.present place set hset) (h.new rfl other ho).not_gt
    exact hnodup.imp fun hne heq => absurd heq hne
  · intro set hset
    rcases List.mem_append.mp (places_append _ _ ▸ hset) with hset | hset
    · exact .inr (.inr hset)
    · exact .inr (.inl (h.new rfl set hset))
  · rw [setSequence, List.length_set, h.sequences]
  · have hold : (m'.setSequence place (m.sequence place ++ objects)).values (m.sequence place) =
        entries := (hm.values_eq he place).trans hl.entries
    have hnew : (m'.setSequence place (m.sequence place ++ objects)).values objects = rest :=
      h.values
    rw [Memory.entries, hs, if_pos rfl, values_append, hold, hnew]
  · rw [hs, if_pos rfl]
    exact hfree

/-- A list is cleared. -/
theorem clear_spec (hm : m.Tidy) (hp : place < m.sequences.length) :
    ChangedAt m (m.setSequence place []) place ∧ (m.setSequence place []).IsList place [] := by
  have hs := sequence_setSequence hp []
  have he : m.Extends (m.setSequence place []) := .refl m
  refine ⟨⟨hm.write he hs nofun .nil nofun, .write hm he hs ?_⟩, ?_, ?_⟩
  · rw [setSequence, List.length_set]
  · rw [Memory.entries, hs, if_pos rfl]
    rfl
  · rw [hs, if_pos rfl]
    nofun

/-! ## Growing sets -/

/-- The sequences are the same. -/
theorem sequence_setMembers (m : Memory) (set : Place) (members : IdentitySet) (place : Place) :
    (m.setMembers set members).sequence place = m.sequence place :=
  rfl

/-- A set with other members is not frozen, as it was not before. -/
theorem frozen?_setMembers (members : IdentitySet) (h : m.frozen? set = some false)
    (other : Place) : (m.setMembers set members).frozen? other = m.frozen? other := by
  rw [frozen?, setMembers, List.getElem?_set]
  split
  · rename_i heq
    rw [if_pos (lt_length_of_frozen? h), ← heq, h]
    rfl
  · rfl

/-- The other members are there. -/
theorem members?_setMembers_self (members : IdentitySet) (h : m.frozen? set = some false) :
    (m.setMembers set members).members? set = some members := by
  rw [members?, setMembers, List.getElem?_set_self (lt_length_of_frozen? h)]
  rfl

/-- All other sets have the members that they had. -/
theorem members?_setMembers_of_ne (members : IdentitySet) {other : Place} (h : other ≠ set) :
    (m.setMembers set members).members? other = m.members? other := by
  rw [members?, setMembers, List.getElem?_set_ne h.symm, members?]

/-- Objects that do not have the set are the same bindings. -/
theorem values_setMembers (members : IdentitySet) (h : set ∉ places objects) :
    (m.setMembers set members).values objects = m.values objects :=
  values_congr fun _ ho => members?_setMembers_of_ne members (ne_of_mem_of_not_mem ho h)

/-- Giving other members to the set of a binding in a list changes nothing but this list. -/
theorem setMembers_changedAt (hm : m.Tidy) (hl : m.IsList place entries)
    (hset : set ∈ places (m.sequence place)) (members : IdentitySet) :
    ChangedAt m (m.setMembers set members) place := by
  have hfrozen := frozen?_setMembers members (hl.free set hset)
  refine ⟨⟨fun other one hone => ?_, fun other => ?_, fun one other hne both hone hother => ?_⟩,
    ⟨le_rfl, fun _ _ _ => rfl, fun other _ hne => ?_, fun one _ => hfrozen one⟩⟩
  · rw [setMembers, List.length_set]
    exact hm.present other one hone
  · exact (hm.once other).imp fun {one _} hshared heq => (hfrozen one).trans (hshared heq)
  · exact (hfrozen both).trans (hm.apart one other hne both hone hother)
  · -- A set in another sequence as well would be frozen.
    refine values_setMembers members fun hother => ?_
    have hshared := hm.apart place other (fun heq => hne (congrArg some heq)) set hset hother
    rw [hl.free set hset] at hshared
    cases hshared

/-- Giving other members to the set of the binding at an index of a list changes the entry at this
index alone. -/
theorem entries_setMembers (hm : m.Tidy) (hl : m.IsList place entries) {index : Nat}
    {object : BindingObject} (hget : (m.sequence place)[index]? = some (some object))
    (hset : object.identities = some set) (members : IdentitySet) :
    (m.setMembers set members).entries place =
      entries.set index (some { m.binding object with identities := some members }) := by
  have hmem : some object ∈ m.sequence place := List.mem_of_getElem? hget
  have hfrozen := hl.free set (List.mem_filterMap.mpr ⟨some object, hmem, hset⟩)
  have hnodup := hl.nodup hm
  obtain ⟨hlt, hat⟩ := List.getElem?_eq_some_iff.mp hget
  obtain ⟨before, after, hsplit, hlength⟩ : ∃ before after,
      m.sequence place = before ++ some object :: after ∧ before.length = index := by
    obtain ⟨before, after, hsplit, hlength, _⟩ :=
      @List.exists_of_set _ index (some object) (m.sequence place) hlt
    exact ⟨before, after, hat ▸ hsplit, hlength⟩
  have hplaces : places (some object :: after) = set :: places after :=
    List.filterMap_cons_some hset
  rw [hsplit, places_append, hplaces, List.nodup_append, List.nodup_cons] at hnodup
  have hbefore : set ∉ places before := fun h => hnodup.2.2 set h set List.mem_cons_self rfl
  have hobject : (m.setMembers set members).binding object =
      { m.binding object with identities := some members } := by
    rw [binding, hset, Option.bind_some, members?_setMembers_self members hfrozen]
    rfl
  have hvalues : entries = m.values before ++ some (m.binding object) :: m.values after := by
    rw [← hl.entries, Memory.entries, hsplit, values_append]
    rfl
  have hindex : index = (m.values before).length := by rw [values, List.length_map, hlength]
  calc (m.setMembers set members).entries place
      = (m.setMembers set members).values before ++
          some ((m.setMembers set members).binding object) ::
            (m.setMembers set members).values after := by
        rw [Memory.entries, sequence_setMembers, hsplit, values_append]
        rfl
    _ = m.values before ++ some { m.binding object with identities := some members } ::
          m.values after := by
        rw [values_setMembers members hbefore, values_setMembers members hnodup.2.1.1, hobject]
    _ = entries.set index (some { m.binding object with identities := some members }) := by
        rw [hvalues, hindex, List.set_append_right _ _ le_rfl, Nat.sub_self, List.set_cons_zero]

/-- Adding an identity in memory carries adding it to the list as a value. Nothing has changed if
there is no place for it. -/
theorem addIdentity_carries (hm : m.Tidy) (hl : m.IsList place entries) (index : Nat)
    (identity : Option Identity) :
    Carries (fun larger m' changed => larger = changed.1 ∧ ChangedAt m m' place ∧
        m'.IsList place changed.2) (· = m)
      (addIdentity place index identity m) (Session.addIdentity entries index identity) := by
  have hentry : entries[index]? = ((m.sequence place)[index]?).map (Option.map m.binding) :=
    hl.entries ▸ List.getElem?_map
  unfold addIdentity
  rw [Session.addIdentity, hentry]
  refine Carries.get ?_
  cases hget : (m.sequence place)[index]? with
  | none => exact .error _ rfl
  | some entry =>
    cases entry with
    | none => exact .error _ rfl
    | some object =>
      cases hset : object.identities with
      | none =>
        have hbinding : (m.binding object).identities = none := by rw [binding, hset]; rfl
        simp only [Option.map_some, Option.join_some, Option.bind_some, hset, hbinding,
          Option.bind_none, Option.map_none]
        exact .error _ rfl
      | some set =>
        have hmem : set ∈ places (m.sequence place) :=
          List.mem_filterMap.mpr ⟨some object, List.mem_of_getElem? hget, hset⟩
        obtain ⟨⟨members, isFrozen⟩, hat, hfrozen⟩ := Option.map_eq_some_iff.mp (hl.free set hmem)
        subst hfrozen
        have hbinding : (m.binding object).identities = some members := by
          rw [binding, hset, Option.bind_some, members?, hat]
          rfl
        simp only [Option.map_some, Option.join_some, Option.bind_some, hset, hbinding, hat]
        refine .value ⟨rfl, setMembers_changedAt hm hl hmem _, ?_, fun other ho => ?_⟩
        · exact entries_setMembers hm hl hget hset _
        · exact (frozen?_setMembers _ (hl.free set hmem) other).trans (hl.free other ho)

end AccessPolicy.Memory
