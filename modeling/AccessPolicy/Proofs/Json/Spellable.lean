import AccessPolicy.Proofs.Json.Magnitude
import AccessPolicy.Proofs.Json.Recognition

/-!
# Documents that can be spelled

Whether a document can be spelled within the limits depends on its parts and not on their order: an
array needs a level for items that can be spelled one level down, and so does an object for its
members, whose names do not matter.
-/

namespace AccessPolicy.Json

open Grammar

variable {limits : Limits} {depth : Nat}

/-- Whether a document can be spelled within the limits. -/
def Value.Spellable (limits : Limits) (depth : Nat) (value : Value) : Prop :=
  ∃ cs, Spells limits depth (.value value) cs

/-- The items of an array can be spelled together if each of them can be. -/
private theorem exists_spells_items {items : List Value} (hne : items ≠ [])
    (h : ∀ item ∈ items, item.Spellable limits depth) :
    ∃ cs, Spells limits depth (.items items) cs := by
  induction items with
  | nil => exact absurd rfl hne
  | cons item rest ih =>
    rw [List.forall_mem_cons] at h
    obtain ⟨⟨cs, hcs⟩, hrest⟩ := h
    by_cases hnil : rest = []
    · subst hnil
      exact ⟨_, .lastItem hcs (List.forall_mem_nil _)⟩
    · obtain ⟨ds, hds⟩ := ih hnil hrest
      exact ⟨_, .item hcs (List.forall_mem_nil _) (List.forall_mem_nil _) hds⟩

/-- The members of an object can be spelled together if the value of each of them can be. -/
private theorem exists_spells_members {members : List (String × Value)} (hne : members ≠ [])
    (h : ∀ member ∈ members, member.2.Spellable limits depth) :
    ∃ cs, Spells limits depth (.members members) cs := by
  induction members with
  | nil => exact absurd rfl hne
  | cons member rest ih =>
    obtain ⟨name, value⟩ := member
    rw [List.forall_mem_cons] at h
    obtain ⟨⟨cs, hcs⟩, hrest⟩ := h
    by_cases hnil : rest = []
    · subst hnil
      exact ⟨_, .lastMember (.written name) hcs (List.forall_mem_nil _)⟩
    · obtain ⟨ds, hds⟩ := ih hnil hrest
      exact ⟨_, .member (.written name) hcs (List.forall_mem_nil _) (List.forall_mem_nil _) hds⟩

/-- Every item of a spelled array is spelled. -/
private theorem of_mem_items {items : List Value} {cs : List Char}
    (h : Spells limits depth (.items items) cs) : ∀ item ∈ items, item.Spellable limits depth := by
  generalize hp : Part.items items = part at h
  induction h generalizing items with
  | lastItem hv hb =>
    cases hp
    exact List.forall_mem_singleton.mpr ⟨_, hv⟩
  | item hv hb ha hr ihv ihr =>
    cases hp
    exact List.forall_mem_cons.mpr ⟨⟨_, hv⟩, ihr rfl⟩
  | _ => cases hp

/-- An array can be spelled if it is empty, or if there is a level for it and each of its items can
be spelled one level down. -/
theorem Value.spellable_array_iff {items : List Value} :
    (Value.array items).Spellable limits depth ↔ items = [] ∨
      ∃ inner, depth = inner + 1 ∧ ∀ item ∈ items, item.Spellable limits inner := by
  constructor
  · rintro ⟨cs, h⟩
    cases h with
    | number hn => exact absurd rfl (hn.ne_nested.1 items)
    | emptyArray _ => exact .inl rfl
    | array _ hi => exact .inr ⟨_, rfl, of_mem_items hi⟩
  · intro h
    by_cases hnil : items = []
    · subst hnil
      exact ⟨_, .emptyArray (List.forall_mem_nil _)⟩
    · obtain ⟨inner, rfl, hitems⟩ := h.resolve_left hnil
      obtain ⟨cs, hcs⟩ := exists_spells_items hnil hitems
      exact ⟨_, .array (List.forall_mem_nil _) hcs⟩

/-- An object can be spelled if it is empty, or if there is a level for it and the value of each of
its members can be spelled one level down. -/
theorem Value.spellable_object_iff {members : List (String × Value)} :
    (Value.object members).Spellable limits depth ↔ members = [] ∨
      ∃ inner, depth = inner + 1 ∧ ∀ member ∈ members, member.2.Spellable limits inner := by
  constructor
  · rintro ⟨cs, h⟩
    cases h with
    | number hn => exact absurd rfl (hn.ne_nested.2 members)
    | emptyObject _ => exact .inl rfl
    | object _ hm => exact .inr ⟨_, rfl, fun member hmember => hm.of_mem_members hmember⟩
  · intro h
    by_cases hnil : members = []
    · subst hnil
      exact ⟨_, .emptyObject (List.forall_mem_nil _)⟩
    · obtain ⟨inner, rfl, hmembers⟩ := h.resolve_left hnil
      obtain ⟨cs, hcs⟩ := exists_spells_members hnil hmembers
      exact ⟨_, .object (List.forall_mem_nil _) hcs⟩

/-- A document has a text exactly if it can be spelled. -/
theorem exists_document_iff {value : Value} :
    (∃ json : String, Document limits value json.toList) ↔ value.Spellable limits limits.depth := by
  constructor
  · rintro ⟨json, h⟩
    generalize json.toList = cs at h
    obtain ⟨_, hs, _⟩ := h
    exact ⟨_, hs⟩
  · rintro ⟨cs, hs⟩
    have hdocument := Document.intro (List.forall_mem_nil _) hs (List.forall_mem_nil _)
    rw [List.nil_append, List.append_nil, ← String.toList_ofList (l := cs)] at hdocument
    exact ⟨String.ofList cs, hdocument⟩

end AccessPolicy.Json
