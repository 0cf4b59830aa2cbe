import AccessPolicy.Proofs.Memory.Carrying
import AccessPolicy.Proofs.Memory.Sharing
import AccessPolicy.Proofs.Policy.Checking

/-!
# Policies and builders in memory

What is done with policies and builders as objects matches what is done with them as values. In
each case the bindings are copied to a new sequence and everything else in memory is kept.
-/

namespace AccessPolicy

/-- Staging bindings in an empty builder, then an etag and a version, and building it at once puts a
policy together. -/
theorem Builder.build_staged (entries : Option (List (Option Binding))) (etag : Option String)
    (version : Int) :
    ((Builder.setBindings {} entries).bind fun builder =>
      ((builder.setEtag etag).setVersion version).build) =
      Policy.construct entries etag version := by
  rw [setBindings, Policy.construct]
  cases h : checkedBindings entries with
  | error defect => rfl
  | ok bindings =>
    have hc : IsComplete ⟨bindings, etag, version⟩ := (checkedBindings_eq_ok_iff.mp h).2
    exact build_of_complete hc

namespace Memory

variable {m m' m'' : Memory} {place : Place}

/-- Whether a policy as an object is a policy. -/
structure IsPolicy (m : Memory) (object : PolicyObject) (policy : Policy) : Prop where
  /-- The bindings are the same. -/
  entries : m.entries object.bindings = policy.bindings.map some
  /-- The etag is the same. -/
  etag : object.etag = policy.etag
  /-- The version is the same. -/
  version : object.version = policy.version

/-- Whether a builder as an object is a builder. -/
structure IsBuilder (m : Memory) (object : BuilderObject) (builder : Builder) : Prop where
  /-- The bindings are the same. -/
  entries : m.entries object.bindings = builder.bindings.map some
  /-- The etag is the same. -/
  etag : object.etag = builder.etag
  /-- The version is the same. -/
  version : object.version = builder.version

/-- An object that is a policy is seen as this policy. -/
theorem IsPolicy.policy_eq {object : PolicyObject} {policy : Policy} (h : m.IsPolicy object policy) :
    m.policy object = policy := by
  rw [Memory.policy, h.entries, h.etag, h.version, List.filterMap_map]
  simp only [Function.comp_def, id, List.filterMap_some]

/-- An object that is a builder is seen as this builder. -/
theorem IsBuilder.builder_eq {object : BuilderObject} {builder : Builder}
    (h : m.IsBuilder object builder) : m.builder object = builder := by
  rw [Memory.builder, h.entries, h.etag, h.version, List.filterMap_map]
  simp only [Function.comp_def, id, List.filterMap_some]

/-- An object goes on to be a builder if everything is kept. -/
theorem IsBuilder.grow {object : BuilderObject} {builder : Builder} (h : m.IsBuilder object builder)
    (hin : object.bindings < m.sequences.length) (hg : Grows m m') : m'.IsBuilder object builder :=
  ⟨(hg.keeps.entries _ hin nofun).trans h.entries, h.etag, h.version⟩

/-- Copies of objects are made as what the objects are at present. -/
theorem made_copies {objects : List (Option BindingObject)} (hp : m.Present (some objects)) :
    Made true m (each copyBinding m objects).2 (each copyBinding m objects).1 (m.values objects) := by
  refine made_each fun object ho m' hm' => ?_
  have hset : ∀ set ∈ object.identities, set < m.sets.length := fun set hset =>
    hp objects rfl set (List.mem_filterMap.mpr ⟨some object, ho, hset⟩)
  have hbinding : m'.binding object = m.binding object := by
    rw [binding, binding]
    cases hi : object.identities with
    | none => rfl
    | some set => rw [Option.bind_some, Option.bind_some, hm'.members? (hset set hi)]
  rw [← hbinding]
  exact m'.made_copyBinding object fun set hs => (hset set hs).trans_le hm'.length_le

/-- Copying what passes the check succeeds, copying anything else fails with its defect, and the
copies are what passed. -/
theorem copyBindings_carries (hm : m.Tidy) {source : Option (List (Option BindingObject))}
    (hs : m.Present source) :
    Carries (fun copied m' bindings =>
        NewAt m m' copied ∧ m'.entries copied = bindings.map some) (Grows m)
      (copyBindings source m) (checkedBindings (source.map m.values)) := by
  unfold copyBindings
  refine Carries.get ?_
  refine Carries.andThen (.ofExcept (.refl _) hm.grows) ?_
  rintro _ _ bindings hb ⟨rfl, -⟩
  obtain ⟨he, _⟩ := checkedBindings_eq_ok_iff.mp hb
  obtain ⟨objects, rfl, hv⟩ := Option.map_eq_some_iff.mp he
  have hmade := made_copies hs
  exact .value ⟨hmade.newAt hm, hmade.entries_newSequence.trans hv⟩

/-- Putting a policy together in memory carries putting it together from values. -/
theorem construct_carries (hm : m.Tidy) {source : Option (List (Option BindingObject))}
    (hs : m.Present source) (etag : Option String) (version : Int) :
    Carries (fun made m' policy => NewAt m m' made.bindings ∧ m'.IsPolicy made policy) (Grows m)
      (construct source etag version m) (Policy.construct (source.map m.values) etag version) :=
  (copyBindings_carries hm hs).map fun _ _ _ ⟨hn, he⟩ => .value ⟨hn, he, rfl, rfl⟩

/-! ## Calls on a builder -/

/-- What a call does to the memory leaves the builder alone. -/
theorem beside_carries {α β : Type} {R : α → Memory → β → Prop} {E : Memory → Prop}
    {action : Action Defect Memory α} {y : Except Defect β} (h : Carries R E (action m) y)
    (object : BuilderObject) :
    Carries (fun a next b => next.1 = object ∧ R a next.2 b)
      (fun left => left.1 = object ∧ E left.2) (beside action (object, m)) y := by
  refine Carries.imp (.within _ h) ?_ ?_
  · rintro a _ b ⟨m', rfl, hr⟩
    exact ⟨rfl, hr⟩
  · rintro _ ⟨m', rfl, he⟩
    exact ⟨rfl, he⟩

/-- What it means that a call on a builder has failed: it has done nothing to the builder, and the
memory has everything that it had. -/
def Refused (m : Memory) (object : BuilderObject) (left : BuilderObject × Memory) : Prop :=
  left.1 = object ∧ Grows m left.2

/-- Staging bindings in memory carries staging them as values. -/
theorem setBindings_carries (hm : m.Tidy) {source : Option (List (Option BindingObject))}
    (hs : m.Present source) {object : BuilderObject} {builder : Builder}
    (het : object.etag = builder.etag) (hv : object.version = builder.version) :
    Carries (fun _ next staged => NewAt m next.2 next.1.bindings ∧ next.2.IsBuilder next.1 staged)
      (Refused m object) (setBindings source (object, m))
      (builder.setBindings (source.map m.values)) := by
  refine (beside_carries (copyBindings_carries hm hs) object).map ?_
  rintro place ⟨_, m'⟩ bindings ⟨rfl, hn, he⟩
  exact .value ⟨hn, he, het, hv⟩

/-- A new builder is empty. -/
theorem newBuilder_spec (hm : m.Tidy) :
    NewAt m m.newBuilder.2 m.newBuilder.1.bindings ∧ m.newBuilder.2.IsBuilder m.newBuilder.1 {} :=
  have hmade : Made true m m [] [] := .of_places_eq_nil rfl
  ⟨hmade.newAt hm, hmade.entries_newSequence, rfl, rfl⟩

/-- Building in memory carries building from values. -/
theorem build_carries (hm : m.Tidy) {object : BuilderObject} {builder : Builder}
    (h : m.IsBuilder object builder) :
    Carries (fun made next policy => next.1 = object ∧ NewAt m next.2 made.bindings ∧
        next.2.IsPolicy made policy)
      (Refused m object) (build (object, m)) builder.build := by
  have hc := construct_carries hm (hm.present_sequence object.bindings) object.etag object.version
  have he : m.values (m.sequence object.bindings) = builder.bindings.map some := h.entries
  rw [Option.map_some, he, h.etag, h.version] at hc
  unfold build
  refine Carries.get ?_
  simp only [h.etag, h.version]
  exact beside_carries hc object

/-- A builder in memory builds what the builder builds that it is, and keeps what it holds. -/
theorem built_carries (hm : m.Tidy) {object : BuilderObject} {builder : Builder}
    (h : m.IsBuilder object builder) :
    Carries (fun seen next policy => seen = policy ∧ next.1 = object ∧ Grows m next.2)
      (Refused m object) (built (object, m)) builder.build := by
  refine (build_carries hm h).andThen ?_
  rintro made next policy - ⟨hobject, hn, hp⟩
  exact .value ⟨hp.policy_eq, hobject, hn.toGrows⟩

/-- Taking a builder from a policy in memory carries taking it from the policy that it is. -/
theorem toBuilder_carries (hm : m.Tidy) {object : PolicyObject} {policy : Policy}
    (hin : object.bindings < m.sequences.length) (h : m.IsPolicy object policy) :
    Carries (fun made m' builder => NewAt m m' made.bindings ∧ m'.IsBuilder made builder) (Grows m)
      (toBuilder object m) policy.toBuilder := by
  obtain ⟨hn, hb⟩ := newBuilder_spec hm
  have hset := setBindings_carries hn.tidy (hn.tidy.present_sequence object.bindings) hb.etag
    hb.version
  have he : m.newBuilder.2.values (m.newBuilder.2.sequence object.bindings) =
      policy.bindings.map some := (hn.keeps.entries _ hin nofun).trans h.entries
  rw [Option.map_some, he] at hset
  have hset' := hset.imp (fun _ _ _ h => h) fun _ h => hn.toGrows.trans h.2
  refine (Carries.holding hset').map ?_
  rintro ⟨_, opened⟩ m' builder ⟨hn', hb'⟩
  exact .value ⟨hn'.after hn.toGrows, hb'.entries, h.etag, h.version⟩

/-- Putting a policy together in a new builder carries putting it together from values. -/
theorem assemble_carries (hm : m.Tidy) {source : Option (List (Option BindingObject))}
    (hs : m.Present source) (etag : Option String) (version : Int) :
    Carries (fun made m' policy => NewAt m m' made.bindings ∧ m'.IsPolicy made policy) (Grows m)
      (assemble source etag version m) (Policy.construct (source.map m.values) etag version) := by
  obtain ⟨hn, hb⟩ := newBuilder_spec hm
  -- The new builder brings no sets with it, so the bindings that are given are what they were.
  have hs' : m.newBuilder.2.Present source := hs
  have hset := setBindings_carries hn.tidy hs' hb.etag hb.version
  have hset' := hset.imp (fun _ _ _ h => h) fun _ h => hn.toGrows.trans h.2
  rw [← Builder.build_staged]
  unfold assemble
  let IsMade (made : PolicyObject) (next : BuilderObject × Memory) (policy : Policy) : Prop :=
    NewAt m next.2 made.bindings ∧ next.2.IsPolicy made policy
  refine Carries.modifyGet (Carries.andThen (Carries.holding (R := IsMade) (hset'.bind ?_)) ?_)
  · rintro _ ⟨object, m'⟩ staged ⟨hn', hb'⟩
    have hb'' : m'.IsBuilder { object with etag, version }
        ((staged.setEtag etag).setVersion version) := ⟨hb'.entries, rfl, rfl⟩
    refine (build_carries hn'.tidy hb'').imp ?_ ?_
    · rintro made ⟨_, m''⟩ policy ⟨-, hn'', hp⟩
      exact ⟨hn''.after (hn.toGrows.trans hn'.toGrows), hp⟩
    · exact fun _ h => hn.toGrows.trans (hn'.toGrows.trans h.2)
  · rintro ⟨made, opened⟩ m' policy - hmade
    exact .value hmade

end Memory

end AccessPolicy
