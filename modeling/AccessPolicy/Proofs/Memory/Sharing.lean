import AccessPolicy.Memory.Objects
import Mathlib.Data.List.Nodup
import Mathlib.Data.Nat.Basic
import Mathlib.Order.Basic

/-!
# Who shares what

Different bindings may share an identity set only if it is frozen. This is what keeps a change to
one sequence of bindings from showing in another. Objects that are made bring new sets with them or
refer to frozen ones, so it stays true when they are put into a sequence.
-/

namespace AccessPolicy.Memory

variable {α : Type} {m m' m'' : Memory} {objects others : List (Option BindingObject)}
  {entries rest : List (Option Binding)} {frozen : Bool} {place set : Place}

/-- Where the identity sets of objects lie. -/
def places (objects : List (Option BindingObject)) : List Place :=
  objects.filterMap (·.bind BindingObject.identities)

theorem places_append (objects others : List (Option BindingObject)) :
    places (objects ++ others) = places objects ++ places others :=
  List.filterMap_append

theorem values_append (m : Memory) (objects others : List (Option BindingObject)) :
    m.values (objects ++ others) = m.values objects ++ m.values others :=
  List.map_append

theorem length_values (m : Memory) (objects : List (Option BindingObject)) :
    (m.values objects).length = objects.length :=
  List.length_map _

/-- Whether the set at a place is frozen, if there is one. -/
def frozen? (m : Memory) (place : Place) : Option Bool := m.sets[place]?.map SetObject.frozen

/-! ## Growing -/

/-- Whether the sets of one memory are the first ones of another. -/
def Extends (m m' : Memory) : Prop := m.sets <+: m'.sets

theorem Extends.refl (m : Memory) : m.Extends m := List.prefix_rfl

theorem Extends.trans (h : m.Extends m') (h' : m'.Extends m'') : m.Extends m'' :=
  List.IsPrefix.trans h h'

/-- A set stays where it is. -/
theorem Extends.getElem? (h : m.Extends m') (hp : place < m.sets.length) :
    m'.sets[place]? = m.sets[place]? := by
  obtain ⟨more, hm⟩ := h
  rw [← hm, List.getElem?_append_left hp]

/-- A set keeps its members. -/
theorem Extends.members? (h : m.Extends m') (hp : place < m.sets.length) :
    m'.members? place = m.members? place := by
  rw [Memory.members?, Memory.members?, h.getElem? hp]

/-- A set that is or is not frozen stays so. -/
theorem Extends.frozen? (h : m.Extends m') (hp : place < m.sets.length) :
    m'.frozen? place = m.frozen? place := by
  rw [Memory.frozen?, Memory.frozen?, h.getElem? hp]

/-- There is a set wherever it is known whether it is frozen. -/
theorem lt_length_of_frozen? (h : m.frozen? place = some frozen) : place < m.sets.length := by
  obtain ⟨object, ho, _⟩ := Option.map_eq_some_iff.mp h
  exact (List.getElem?_eq_some_iff.mp ho).1

/-- Objects are the same bindings in memories in which their sets have the same members. -/
theorem values_congr (h : ∀ place ∈ places objects, m'.members? place = m.members? place) :
    m'.values objects = m.values objects := by
  refine List.map_congr_left fun entry he => ?_
  cases entry with
  | none => rfl
  | some object =>
    have hm : object.identities.bind m'.members? = object.identities.bind m.members? := by
      cases hi : object.identities with
      | none => rfl
      | some place => exact h place (List.mem_filterMap.mpr ⟨some object, he, hi⟩)
    simp only [Option.map_some, binding, hm]

/-! ## Making objects -/

/-- What it means that objects for entries have been made, with identity sets that are all frozen
or that can all grow. Sets that can grow are new and no two objects share one. -/
structure Made (frozen : Bool) (m m' : Memory) (objects : List (Option BindingObject))
    (entries : List (Option Binding)) : Prop where
  /-- The sets that there were are the same. -/
  extends_ : m.Extends m'
  /-- The sequences are the same. -/
  sequences : m'.sequences = m.sequences
  /-- The objects are the entries. -/
  values : m'.values objects = entries
  /-- The sets are there and frozen or not, as they should be. -/
  frozen? : ∀ place ∈ places objects, m'.frozen? place = some frozen
  /-- Sets that can grow are new. -/
  new : frozen = false → ∀ place ∈ places objects, m.sets.length ≤ place
  /-- Sets that can grow are not shared. -/
  once : frozen = false → (places objects).Nodup

/-- The objects of a sequence are the same. -/
theorem Made.sequence_eq (h : Made frozen m m' objects entries) (place : Place) :
    m'.sequence place = m.sequence place := by
  rw [Memory.sequence, h.sequences, Memory.sequence]

/-- There are as many objects as entries. -/
theorem Made.length_eq (h : Made frozen m m' objects entries) : objects.length = entries.length := by
  rw [← h.values, length_values]

/-- Objects without sets are made of nothing. -/
theorem Made.of_places_eq_nil (h : places objects = []) :
    Made frozen m m objects (m.values objects) where
  extends_ := .refl m
  sequences := rfl
  values := rfl
  frozen? _ hp := absurd (h ▸ hp) List.not_mem_nil
  new _ _ hp := absurd (h ▸ hp) List.not_mem_nil
  once _ := h ▸ List.nodup_nil

/-- Objects are made one after another. -/
theorem Made.append (h : Made frozen m m' objects entries) (h' : Made frozen m' m'' others rest) :
    Made frozen m m'' (objects ++ others) (entries ++ rest) := by
  have hlt : ∀ place ∈ places objects, place < m'.sets.length := fun place hp =>
    lt_length_of_frozen? (h.frozen? place hp)
  refine ⟨h.extends_.trans h'.extends_, h'.sequences.trans h.sequences, ?_, ?_, ?_, ?_⟩
  · have hkept : m''.values objects = m'.values objects :=
      values_congr fun place hp => h'.extends_.members? (hlt place hp)
    rw [values_append, hkept, h.values, h'.values]
  · intro place hp
    rcases List.mem_append.mp (places_append objects others ▸ hp) with hp | hp
    · rw [h'.extends_.frozen? (hlt place hp), h.frozen? place hp]
    · exact h'.frozen? place hp
  · intro hf place hp
    rcases List.mem_append.mp (places_append objects others ▸ hp) with hp | hp
    · exact h.new hf place hp
    · exact Nat.le_trans h.extends_.length_le (h'.new hf place hp)
  · intro hf
    rw [places_append, List.nodup_append]
    refine ⟨h.once hf, h'.once hf, fun place hp other ho he => ?_⟩
    exact absurd (he ▸ hlt place hp) (Nat.not_lt.mpr (h'.new hf other ho))

/-- If a maker makes an object for each item, then it does for all of them. -/
theorem made_each {make : Memory → α → BindingObject × Memory} {value : α → Binding}
    {items : List (Option α)}
    (h : ∀ item, some item ∈ items → ∀ m', m.Extends m' →
      Made frozen m' (make m' item).2 [some (make m' item).1] [some (value item)]) :
    Made frozen m (each make m items).2 (each make m items).1 (items.map (Option.map value)) := by
  induction items generalizing m with
  | nil => exact .of_places_eq_nil rfl
  | cons entry items ih =>
    cases entry with
    | none =>
      have habsent : Made frozen m m [none] [none] := .of_places_eq_nil rfl
      exact habsent.append (ih fun item hi => h item (List.mem_cons_of_mem _ hi))
    | some item =>
      have hfirst := h item List.mem_cons_self m (.refl m)
      refine hfirst.append (ih fun other ho m' he => ?_)
      exact h other (List.mem_cons_of_mem _ ho) m' (hfirst.extends_.trans he)

/-- A set is made behind all others. -/
theorem extends_newSet (m : Memory) (object : SetObject) : m.Extends (m.newSet object).2 :=
  List.prefix_append _ _

theorem getElem?_newSet (m : Memory) (object : SetObject) :
    (m.newSet object).2.sets[(m.newSet object).1]? = some object :=
  List.getElem?_concat_length

/-- A binding is made with a set of its own, if it has one. -/
theorem made_newBinding (frozen : Bool) (m : Memory) (binding : Binding) :
    Made frozen m (m.newBinding frozen binding).2 [some (m.newBinding frozen binding).1]
      [some binding] := by
  obtain ⟨role, identities, condition⟩ := binding
  cases identities with
  | none => exact .of_places_eq_nil rfl
  | some members =>
    have hset := getElem?_newSet m ⟨members, frozen⟩
    refine ⟨m.extends_newSet _, rfl, ?_, ?_, ?_, fun _ => List.nodup_singleton _⟩
    · have hm : (m.newSet ⟨members, frozen⟩).2.members? (m.newSet ⟨members, frozen⟩).1 =
          some members := by
        rw [members?, hset]
        rfl
      exact congrArg (fun found => [some (Binding.mk role found condition)]) hm
    · intro place hp
      rw [List.mem_singleton.mp hp, Memory.frozen?]
      exact congrArg (Option.map SetObject.frozen) hset
    · intro _ place hp
      exact Nat.le_of_eq (List.mem_singleton.mp hp).symm

/-- The objects of the entries of a sequence are made. -/
theorem made_objects (frozen : Bool) (m : Memory) (entries : List (Option Binding)) :
    Made frozen m (m.objects frozen entries).2 (m.objects frozen entries).1 entries := by
  have h : Made frozen m (m.objects frozen entries).2 (m.objects frozen entries).1
      (entries.map (Option.map id)) :=
    made_each fun binding _ m' _ => m'.made_newBinding frozen binding
  rwa [Option.map_id, List.map_id] at h

/-- A copy of a binding is the same binding, with a frozen set. -/
theorem made_copyBinding (m : Memory) (object : BindingObject)
    (hp : ∀ place ∈ object.identities, place < m.sets.length) :
    Made true m (m.copyBinding object).2 [some (m.copyBinding object).1]
      [some (m.binding object)] := by
  obtain ⟨role, identities, condition⟩ := object
  have hc : (condition.map fun c => ⟨c.title, c.description, c.expression⟩) = condition :=
    Option.map_id'
  cases identities with
  | none =>
    have hcopy : m.copyBinding ⟨role, none, condition⟩ = (⟨role, none, condition⟩, m) := by
      simp only [copyBinding, hc]
    rw [hcopy]
    exact .of_places_eq_nil rfl
  | some place =>
    obtain ⟨⟨members, isFrozen⟩, hset⟩ : ∃ set, m.sets[place]? = some set :=
      ⟨_, List.getElem?_eq_getElem (hp place rfl)⟩
    have hbinding : m.binding ⟨role, some place, condition⟩ = ⟨role, some members, condition⟩ := by
      simp only [binding, Option.bind_some, members?, hset, Option.map_some]
    cases isFrozen with
    | false =>
      have hcopy : m.copyBinding ⟨role, some place, condition⟩ =
          m.newBinding true ⟨role, some members, condition⟩ := by
        simp only [copyBinding, frozenSet, hset, hc, newBinding, Bool.false_eq_true, if_false]
      rw [hcopy, hbinding]
      exact m.made_newBinding true _
    | true =>
      -- A frozen set is its own copy.
      have hcopy : m.copyBinding ⟨role, some place, condition⟩ =
          (⟨role, some place, condition⟩, m) := by
        simp only [copyBinding, frozenSet, hset, hc, if_true]
      rw [hcopy, hbinding]
      refine ⟨.refl m, rfl, congrArg (fun found => [some found]) hbinding, fun other ho => ?_,
        nofun, nofun⟩
      rw [List.mem_singleton.mp ho, Memory.frozen?]
      exact congrArg (Option.map SetObject.frozen) hset

/-! ## Keeping -/

/-- Whether bindings share frozen sets only, and all sets are there. -/
structure Tidy (m : Memory) : Prop where
  /-- The set of a binding in a sequence is there. -/
  present : ∀ place, ∀ set ∈ places (m.sequence place), set < m.sets.length
  /-- If two bindings of one sequence have the same set, it is frozen. -/
  once : ∀ place, (places (m.sequence place)).Pairwise fun set other =>
    set = other → m.frozen? set = some true
  /-- If bindings of different sequences have the same set, it is frozen. -/
  apart : ∀ place other, place ≠ other → ∀ set ∈ places (m.sequence place),
    set ∈ places (m.sequence other) → m.frozen? set = some true

section Extends

variable (hm : m.Tidy) (he : m.Extends m')

include hm he

/-- The set of a binding in a sequence is still frozen or still not. -/
theorem Tidy.frozen?_eq (hset : set ∈ places (m.sequence place)) :
    m'.frozen? set = m.frozen? set :=
  he.frozen? (hm.present place set hset)

/-- The objects of a sequence are still the same bindings. -/
theorem Tidy.values_eq (place : Place) :
    m'.values (m.sequence place) = m.values (m.sequence place) :=
  values_congr fun set hset => he.members? (hm.present place set hset)

/-- If two bindings of one sequence have the same set, it is still frozen. -/
theorem Tidy.once_extends (place : Place) :
    (places (m.sequence place)).Pairwise fun set other =>
      set = other → m'.frozen? set = some true := by
  refine (hm.once place).imp_of_mem fun hset _ hshared heq => ?_
  rw [hm.frozen?_eq he hset]
  exact hshared heq

/-- If bindings of different sequences have the same set, it is still frozen. -/
theorem Tidy.apart_extends {other : Place} (hne : place ≠ other)
    (hset : set ∈ places (m.sequence place)) (ho : set ∈ places (m.sequence other)) :
    m'.frozen? set = some true := by
  rw [hm.frozen?_eq he hset]
  exact hm.apart place other hne set hset ho

end Extends

/-- What it means that nothing has changed from one memory to another apart from what is new, and
apart from the sequence at a place if there is one. -/
structure Keeps (changed : Option Place) (m m' : Memory) : Prop where
  /-- The sequences are still there. -/
  grown : m.sequences.length ≤ m'.sequences.length
  /-- The objects of a sequence are the same. -/
  sequence : ∀ place < m.sequences.length, place ∉ changed → m'.sequence place = m.sequence place
  /-- They are still the same bindings. -/
  entries : ∀ place < m.sequences.length, place ∉ changed → m'.entries place = m.entries place
  /-- A set that is or is not frozen stays so. -/
  frozen? : ∀ set < m.sets.length, m'.frozen? set = m.frozen? set

/-- There is nothing in an empty memory. -/
theorem tidy_empty : Tidy {} :=
  ⟨fun _ _ h => absurd h List.not_mem_nil, fun _ => .nil, fun _ _ _ _ h => absurd h List.not_mem_nil⟩

/-- A memory keeps what it has. -/
theorem Keeps.refl (m : Memory) : Keeps none m m :=
  ⟨le_rfl, fun _ _ _ => rfl, fun _ _ _ => rfl, fun _ _ => rfl⟩

/-- What is kept twice is kept. -/
theorem Keeps.trans (h : Keeps none m m') (h' : Keeps none m' m'') : Keeps none m m'' where
  grown := h.grown.trans h'.grown
  sequence place hp _ :=
    (h'.sequence place (hp.trans_le h.grown) nofun).trans (h.sequence place hp nofun)
  entries place hp _ :=
    (h'.entries place (hp.trans_le h.grown) nofun).trans (h.entries place hp nofun)
  frozen? set hs := by
    have hf := h.frozen? set hs
    refine (h'.frozen? set ?_).trans hf
    obtain ⟨flag, hflag⟩ : ∃ flag, m.frozen? set = some flag :=
      ⟨_, congrArg (Option.map SetObject.frozen) (List.getElem?_eq_getElem hs)⟩
    exact lt_length_of_frozen? (hf.trans hflag)

/-- Making objects keeps everything. -/
theorem Made.keeps (h : Made frozen m m' objects entries) (hm : m.Tidy) : Keeps none m m' := by
  refine ⟨(congrArg List.length h.sequences).ge, fun place _ _ => h.sequence_eq place,
    fun place _ _ => ?_, fun set hset => h.extends_.frozen? hset⟩
  rw [Memory.entries, h.sequence_eq, Memory.entries]
  exact hm.values_eq h.extends_ place

/-- Making objects leaves a memory tidy, as they are in no sequence yet. -/
theorem Made.tidy (h : Made frozen m m' objects entries) (hm : m.Tidy) : m'.Tidy := by
  refine ⟨fun place set hset => ?_, fun place => ?_, fun place other hne set hset ho => ?_⟩
  · rw [h.sequence_eq] at hset
    exact (hm.present place set hset).trans_le h.extends_.length_le
  · rw [h.sequence_eq]
    exact hm.once_extends h.extends_ place
  · rw [h.sequence_eq] at hset ho
    exact hm.apart_extends h.extends_ hne hset ho

/-- What is kept apart from a new place is kept. -/
theorem Keeps.of_new (h : Keeps (some place) m m') (hp : m.sequences.length ≤ place) :
    Keeps none m m' := by
  have hne {other : Place} (ho : other < m.sequences.length) : other ∉ some place := fun h =>
    absurd ho (Option.mem_some.mp h ▸ hp).not_gt
  exact ⟨h.grown, fun other ho _ => h.sequence other ho (hne ho),
    fun other ho _ => h.entries other ho (hne ho), h.frozen?⟩

section Write

variable (hm : m.Tidy) (he : m.Extends m')
  (hs : ∀ other, m'.sequence other = if other = place then objects else m.sequence other)

include hm he hs

/-- Writing a sequence of objects leaves a memory tidy if their sets are there and those that are
not frozen are not shared, and belong to this sequence already or are new. -/
theorem Tidy.write (hp : ∀ set ∈ places objects, set < m'.sets.length)
    (ho : (places objects).Pairwise fun set other => set = other → m'.frozen? set = some true)
    (ha : ∀ set ∈ places objects, m'.frozen? set = some true ∨ m.sets.length ≤ set ∨
      set ∈ places (m.sequence place)) : m'.Tidy := by
  -- No other sequence has one of the sets that are not frozen.
  have hfree {other set : Place} (hne : other ≠ place) (hset : set ∈ places objects)
      (hother : set ∈ places (m.sequence other)) : m'.frozen? set = some true := by
    rcases ha set hset with h | h | h
    · exact h
    · exact absurd (hm.present other set hother) h.not_gt
    · exact hm.apart_extends he hne.symm h hother
  refine ⟨fun other set hset => ?_, fun other => ?_, fun one other hne set hone hother => ?_⟩
  · rw [hs] at hset
    split at hset
    · exact hp set hset
    · exact (hm.present other set hset).trans_le he.length_le
  · rw [hs]
    split
    · exact ho
    · exact hm.once_extends he other
  · rw [hs] at hone hother
    split at hone <;> split at hother <;> rename_i h₁ h₂
    · exact absurd (h₁.trans h₂.symm) hne
    · exact hfree h₂ hone hother
    · exact hfree h₁ hother hone
    · exact hm.apart_extends he hne hone hother

/-- Writing a sequence of objects keeps everything else. -/
theorem Keeps.write (hl : m.sequences.length ≤ m'.sequences.length) : Keeps (some place) m m' := by
  have hother {other : Place} (hne : other ∉ some place) :
      m'.sequence other = m.sequence other := by
    rw [hs, if_neg fun h => hne (congrArg some h.symm)]
  refine ⟨hl, fun other _ hne => hother hne, fun other _ hne => ?_, fun set hset => he.frozen? hset⟩
  rw [Memory.entries, hother hne, Memory.entries]
  exact hm.values_eq he other

end Write

/-- Whether the sets of the objects of a source are there. -/
def Present (m : Memory) (source : Option (List (Option BindingObject))) : Prop :=
  ∀ objects ∈ source, ∀ set ∈ places objects, set < m.sets.length

/-- The sets of a sequence are there. -/
theorem Tidy.present_sequence (hm : m.Tidy) (place : Place) :
    m.Present (some (m.sequence place)) := by
  rintro objects ho
  rw [← Option.some.inj ho]
  exact hm.present place

/-- The sets of objects that were made are there. -/
theorem Made.present (h : Made frozen m m' objects entries) : m'.Present (some objects) := by
  rintro objects ho set hset
  rw [← Option.some.inj ho] at hset
  exact lt_length_of_frozen? (h.frozen? set hset)

/-! ## New sequences -/

/-- What it means that everything is kept from one memory to another, in which bindings share frozen
sets only. There may be more in it. -/
structure Grows (m m' : Memory) : Prop where
  /-- Bindings share frozen sets only. -/
  tidy : m'.Tidy
  /-- Everything is kept. -/
  keeps : Keeps none m m'

/-- A memory grows by nothing. -/
theorem Tidy.grows (hm : m.Tidy) : Grows m m := ⟨hm, .refl m⟩

/-- What grows twice grows. -/
theorem Grows.trans (h : Grows m m') (h' : Grows m' m'') : Grows m m'' :=
  ⟨h'.tidy, h.keeps.trans h'.keeps⟩

/-- A memory grows by objects that are made. -/
theorem Made.grows (h : Made frozen m m' objects entries) (hm : m.Tidy) : Grows m m' :=
  ⟨h.tidy hm, h.keeps hm⟩

/-- What it means that a new sequence lies at a place and everything else is kept. -/
structure NewAt (m m' : Memory) (place : Place) : Prop extends Grows m m' where
  /-- Nothing was at the place before. -/
  new : m.sequences.length ≤ place
  /-- Now there is something. -/
  inside : place < m'.sequences.length

/-- What is new in a memory that grew is new. -/
theorem NewAt.after (h : Grows m m') (h' : NewAt m' m'' place) : NewAt m m'' place :=
  ⟨h.trans h'.toGrows, h.keeps.grown.trans h'.new, h'.inside⟩

/-- A new sequence comes behind all others. -/
theorem sequence_newSequence (m : Memory) (objects : List (Option BindingObject)) (place : Place) :
    (m.newSequence objects).2.sequence place =
      if place = m.sequences.length then objects else m.sequence place := by
  rw [sequence, newSequence]
  split
  · rename_i h
    rw [h, List.getElem?_concat_length, Option.getD_some]
  · rename_i h
    rcases Nat.lt_or_gt_of_ne h with h | h
    · rw [List.getElem?_append_left h, sequence]
    · rw [List.getElem?_eq_none (by rw [List.length_append]; exact h),
        sequence, List.getElem?_eq_none h.le]

/-- Objects that were made are put into a new sequence. -/
theorem Made.newAt (h : Made frozen m m' objects entries) (hm : m.Tidy) :
    NewAt m (m'.newSequence objects).2 (m'.newSequence objects).1 := by
  have hplace : (m'.newSequence objects).1 = m.sequences.length := congrArg List.length h.sequences
  have hs (other : Place) : (m'.newSequence objects).2.sequence other =
      if other = (m'.newSequence objects).1 then objects else m.sequence other := by
    rw [sequence_newSequence, h.sequence_eq]
    rfl
  have hlength : (m'.newSequence objects).2.sequences.length = m.sequences.length + 1 := by
    rw [← h.sequences]
    exact List.length_append
  have hgrown : m.sequences.length ≤ (m'.newSequence objects).2.sequences.length :=
    hlength ▸ Nat.le_succ _
  have he : m.Extends (m'.newSequence objects).2 := h.extends_
  refine ⟨⟨hm.write he hs (fun set hset => lt_length_of_frozen? (h.frozen? set hset)) ?_ ?_,
    (Keeps.write hm he hs hgrown).of_new hplace.ge⟩, hplace.ge, ?_⟩
  · cases frozen with
    | false => exact (h.once rfl).imp fun hne heq => absurd heq hne
    | true => exact List.pairwise_of_forall_mem_list fun set hset _ _ _ => h.frozen? set hset
  · intro set hset
    cases frozen with
    | false => exact .inr (.inl (h.new rfl set hset))
    | true => exact .inl (h.frozen? set hset)
  · rw [hplace, hlength]
    exact Nat.lt_succ_self _

/-- A new sequence consists of the given objects. -/
theorem sequence_newSequence_self (m : Memory) (objects : List (Option BindingObject)) :
    (m.newSequence objects).2.sequence (m.newSequence objects).1 = objects :=
  (m.sequence_newSequence objects _).trans (if_pos rfl)

/-- The new sequence consists of the entries for which the objects were made. -/
theorem Made.entries_newSequence (h : Made frozen m m' objects entries) :
    (m'.newSequence objects).2.entries (m'.newSequence objects).1 = entries := by
  rw [Memory.entries, sequence_newSequence_self]
  exact h.values

end AccessPolicy.Memory
