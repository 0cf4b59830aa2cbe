import AccessPolicy.Proofs.Memory.Failures
import AccessPolicy.Proofs.Policy.Defects

/-!
# Validation

Bindings that are staged in a builder or put together to a policy are checked in the same way and
copied after that. Either the defect that decides is reported and all names stand for what they
stood for, or what is kept is what was given, entry by entry. It makes no difference whether a
policy is put together at once or in a builder, where the bindings are checked and copied twice.
-/

namespace AccessPolicy

namespace Memory

variable {m : Memory} {source : Option (List (Option BindingObject))}

/-- The policy that an action makes, as it is when it has been made. -/
def seen (action : Action Defect Memory PolicyObject) (m : Memory) : Except Defect Policy :=
  match action m with
  | .ok made m' => .ok (m'.policy made)
  | .error defect _ => .error defect

/-- An action that carries putting a policy together makes this policy. -/
theorem seen_eq {action : Action Defect Memory PolicyObject} {E : Memory → Prop}
    {outcome : Except Defect Policy}
    (h : Carries (fun made m' policy => NewAt m m' made.bindings ∧ m'.IsPolicy made policy) E
      (action m) outcome) : seen action m = outcome := by
  rw [seen]
  generalize action m = result at h ⊢
  cases h with
  | value related => exact congrArg Except.ok related.2.policy_eq
  | error defect _ => rfl

/-- A policy is the same whether it is put together at once or in a builder, and so is the defect
if there is one. -/
theorem seen_construct_eq_assemble (hm : m.Tidy) (hs : m.Present source) (etag : Option String)
    (version : Int) :
    seen (construct source etag version) m = seen (assemble source etag version) m := by
  rw [seen_eq (construct_carries hm hs etag version), seen_eq (assemble_carries hm hs etag version)]

end Memory

namespace Workspace

variable {w w' : Workspace} {name : String} {argument : BindingsSource}
  {object : BuilderObject} {builder : Builder} {source : Option (List (Option BindingObject))}

/-- The objects of a source are there, and everything else is as it was. -/
theorem sequence_spec (hm : w.memory.Tidy) (hsource : sequence argument w = .ok source w') :
    w.Grown w' ∧ w'.memory.Present source := by
  cases argument with
  | given entries =>
    cases hentries : Session.readable (resolveEntries entries) with
    | error failure =>
      rw [sequence, hentries] at hsource
      cases hsource
    | ok resolved =>
      rw [sequence, hentries] at hsource
      cases resolved with
      | none =>
        cases hsource
        exact ⟨w.grown_of_tidy hm, nofun⟩
      | some entries =>
        cases hsource
        have hmade := Memory.made_objects true w.memory entries
        exact ⟨w.grown_of_grows (hmade.grows hm), hmade.present⟩
  | named list =>
    cases hplace : Session.find w.lists list with
    | error failure =>
      change EStateM.bind (MonadExcept.ofExcept (Session.find w.lists list)) _ w = _ at hsource
      rw [hplace] at hsource
      cases hsource
    | ok place =>
      change EStateM.bind (MonadExcept.ofExcept (Session.find w.lists list)) _ w = _ at hsource
      rw [hplace] at hsource
      cases hsource
      exact ⟨w.grown_of_tidy hm, hm.present_sequence place⟩

/-- What staging bindings in a builder comes to, by what comes of staging them as values: either it
is refused, and the builder builds what it built before, or the builder holds what is staged. -/
inductive Staging (w : Workspace) (name : String) (object : BuilderObject) (builder : Builder) :
    Except Defect Builder → Result → Prop where
  | refused (defect : Defect) {next : Workspace} (grown : w.Grown next)
      (same : next.memory.IsBuilder object builder) :
      Staging w name object builder (.error defect)
        (.refused (.fault (.defect defect)) builder.build, next)
  | staged {changed : Builder} {staged : BuilderObject} {next : Workspace}
      (named : next.builders.get? name = some staged)
      (holds : next.memory.IsBuilder staged changed) :
      Staging w name object builder (.ok changed) (.staged changed.build, next)

/-- What a name stands for is found. -/
theorem find_eq_ok {α : Type} {table : Workspace → Table α} {found : α}
    (h : (table w).get? name = some found) : find table name w = .ok found w := by
  change (MonadExcept.ofExcept (Session.find (table w) name) : Action Failure Workspace α) w = _
  rw [Session.find_eq_ok_iff.mpr h]
  rfl

section Given

variable (hm : w.memory.Tidy) (hsource : sequence argument w = .ok source w')

include hm hsource

/-- The builder of a name takes what passes the check, and keeps what it has otherwise. -/
theorem copying_carries (hobject : w.builders.get? name = some object)
    (hinside : object.bindings < w.memory.sequences.length)
    (hb : w.memory.IsBuilder object builder) :
    Carries (fun _ next changed => next.memory.Tidy ∧
        ∃ staged, next.builders.get? name = some staged ∧
          staged.bindings < next.memory.sequences.length ∧ next.memory.IsBuilder staged changed)
      w.Grown
      ((ordered argument false).bind (fun objects => onBuilder name (Memory.setBindings objects)) w)
      (Session.defective (builder.setBindings (source.map w'.memory.values))) := by
  obtain ⟨hg, hpresent⟩ := sequence_spec hm hsource
  have hb' := hb.grow hinside hg.memory
  have hnamed : w'.object? (.builder name) = some (.builder object) := by
    rw [hg.object?]
    exact object?_builder_eq_iff.mpr hobject
  have hordered : ordered argument false w = .ok source w' := Action.bind_of_ok hsource _
  rw [Action.bind_of_ok hordered, onBuilder]
  change Carries _ _ (EStateM.bind (find builders name) _ w') _
  rw [Action.bind_of_ok (find_eq_ok (object?_builder_eq_iff.mp hnamed))]
  have hset := Memory.setBindings_carries hg.memory.tidy hpresent hb'.etag hb'.version
  refine ((calling_carries hnamed hset).adapt _).imp ?_ fun _ => hg.trans
  rintro _ _ changed ⟨⟨staged, m⟩, rfl, hn, hholds⟩
  exact ⟨hn.tidy, staged, Table.get?_set_self .., hn.inside, hholds⟩

/-- Staging bindings refuses what does not pass the check, and otherwise stages it. -/
theorem staging_step (hobject : w.builders.get? name = some object)
    (hinside : object.bindings < w.memory.sequences.length)
    (hb : w.memory.IsBuilder object builder) :
    Staging w name object builder (builder.setBindings (source.map w'.memory.values))
      (w.step (.setBindings name argument false)) := by
  have hstaging : Carries (fun answer next outcome =>
        Staging w name object builder outcome (answer, next)) (fun _ => False)
      (setBindings name argument false w)
      (.ok (builder.setBindings (source.map w'.memory.values)) : Except Failure _) := by
    change Carries _ _ (EStateM.bind (find builders name) _ w) _
    rw [Action.bind_of_ok (find_eq_ok hobject)]
    refine (copying_carries hm hsource hobject hinside hb).settle ?_ ?_
    · rintro _ next changed hchanged ⟨hm', staged, hstaged, hin, hholds⟩
      rw [mapError_eq_ok_iff.mp hchanged]
      have hnamed := object?_builder_eq_iff.mpr hstaged
      refine (state_carries hm' hnamed hholds).goOn ?_
      rintro _ last ⟨rfl, hlast⟩
      refine .value (.staged (object?_builder_eq_iff.mp ?_) (hholds.grow hin hlast.memory))
      rw [hlast.object?, hnamed]
    · intro failure next hfailed hgrown
      obtain ⟨defect, hdefect, rfl⟩ := mapError_eq_error_iff.mp hfailed
      rw [hdefect]
      have hnamed : next.object? (.builder name) = some (.builder object) := by
        rw [hgrown.object?]
        exact object?_builder_eq_iff.mpr hobject
      refine (state_carries hgrown.memory.tidy hnamed (hb.grow hinside hgrown.memory)).goOn ?_
      rintro _ last ⟨rfl, hlast⟩
      have hall := hgrown.trans hlast
      exact .value (.refused defect hall (hb.grow hinside hall.memory))
  obtain ⟨answer, next, hanswer, hspec⟩ := hstaging.exists_ok
  rw [step, act, hanswer]
  exact hspec

/-- Putting a policy together refuses what does not pass the check, and otherwise gives the
policy. -/
theorem construct_step (target : String) (etag : Option String) (version : Int) :
    Carries (fun answer _ policy => answer = .policy policy) w.Grown
      (act (.construct target argument etag version) w)
      (Session.defective (Policy.construct (source.map w'.memory.values) etag version)) := by
  obtain ⟨hg, hpresent⟩ := sequence_spec hm hsource
  have hmake := Memory.construct_carries hg.memory.tidy hpresent etag version
  change Carries _ _ (EStateM.bind (sequence argument) _ w) _
  rw [Action.bind_of_ok hsource]
  refine ((inMemory_carries hmake).imp (fun _ _ _ h => h) fun _ => hg.trans).andThen ?_
  rintro made _ policy - ⟨m, rfl, -, his⟩
  exact .value (congrArg Answer.policy his.policy_eq)

end Given

/-- Whatever is given to a builder in a workspace, staging fails exactly if this is no sequence or
has an entry with a defect. Then the defect that decides is reported, all names stand for what they
stood for, and the builder builds what it built before. Otherwise the builder holds what was given,
entry by entry. Putting a policy together at once fails with the same defect, and otherwise gives
the policy that would be built in a new builder. -/
theorem validation_outcome (w : Workspace) (name target : String) (argument : BindingsSource)
    (etag : Option String) (version : Int) {object : BuilderObject} {builder : Builder}
    {source : Option (List (Option BindingObject))} {w' : Workspace} (hm : w.memory.Tidy)
    (hobject : w.builders.get? name = some object)
    (hinside : object.bindings < w.memory.sequences.length)
    (hbuilder : w.memory.IsBuilder object builder)
    (hsource : sequence argument w = .ok source w') :
    let given := source.map w'.memory.values
    let staging := w.step (.setBindings name argument false)
    let constructing := w.step (.construct target argument etag version)
    (staging.1.isError = true ↔
      given = none ∨ ∃ entries ∈ given, ∃ entry ∈ entries, IsDefective entry) ∧
    (staging.1.isError = true → ∃ defect, Decides given defect) ∧
    (∀ defect, Decides given defect →
      staging.1 = .refused (.fault (.defect defect)) builder.build ∧ w.Grown staging.2 ∧
      staging.2.memory.IsBuilder object builder ∧
      constructing.1 = .failed (.fault (.defect defect)) ∧ w.Grown constructing.2) ∧
    (staging.1.isError = false → ∃ bindings staged, given = some (bindings.map some) ∧
      staging.2.builders.get? name = some staged ∧
      staging.2.memory.IsBuilder staged ⟨bindings, builder.etag, builder.version⟩ ∧
      staging.1 = .staged (.ok ⟨bindings, builder.etag, builder.version⟩) ∧
      constructing.1 = .policy ⟨bindings, etag, version⟩) ∧
    Memory.seen (Memory.construct source etag version) w'.memory =
      Memory.seen (Memory.assemble source etag version) w'.memory := by
  intro given staging constructing
  obtain ⟨hg, hpresent⟩ := sequence_spec hm hsource
  have hassemble := Memory.seen_construct_eq_assemble hg.memory.tidy hpresent etag version
  have hstaging : Staging w name object builder (builder.setBindings given) staging :=
    staging_step hm hsource hobject hinside hbuilder
  have hconstructing := construct_step hm hsource target etag version
  change Carries _ _ _ (Session.defective (Policy.construct given etag version)) at hconstructing
  rw [show constructing = answered (act (.construct target argument etag version) w) from rfl]
  generalize act (.construct target argument etag version) w = constructed at hconstructing
  clear_value staging constructing
  cases hchecked : checkedBindings given with
  | error defect =>
    rw [Builder.setBindings, hchecked] at hstaging
    rw [Policy.construct, hchecked] at hconstructing
    have hdecides : Decides given defect := checkedBindings_eq_error_iff.mp hchecked
    cases hstaging with
    | refused _ hgrown hsame =>
      cases hconstructing with
      | error _ hleft =>
        refine ⟨iff_of_true rfl (exists_decides_iff.mp ⟨defect, hdecides⟩),
          fun _ => ⟨defect, hdecides⟩, fun other hother => ?_,
          fun hpasses => absurd hpasses.symm Bool.false_ne_true, hassemble⟩
        obtain rfl : defect = other := by
          rw [checkedBindings_eq_error_iff.mpr hother] at hchecked
          exact (Except.error.inj hchecked).symm
        exact ⟨rfl, hgrown, hsame, rfl, hleft⟩
  | ok bindings =>
    rw [Builder.setBindings, hchecked] at hstaging
    rw [Policy.construct, hchecked] at hconstructing
    obtain ⟨hgiven, hcomplete⟩ := checkedBindings_eq_ok_iff.mp hchecked
    have hnone : ¬∃ defect, Decides given defect := by
      rintro ⟨defect, hdecides⟩
      rw [checkedBindings_eq_error_iff.mpr hdecides] at hchecked
      cases hchecked
    cases hstaging with
    | staged hnamed hholds =>
      cases hconstructing with
      | value hanswer =>
        refine ⟨iff_of_false Bool.false_ne_true (exists_decides_iff.not.mp hnone),
          fun hfails => absurd hfails Bool.false_ne_true,
          fun defect hdecides => absurd ⟨defect, hdecides⟩ hnone, fun _ => ?_, hassemble⟩
        refine ⟨bindings, _, hgiven, hnamed, hholds, ?_, hanswer⟩
        exact congrArg Answer.staged (Builder.build_of_complete hcomplete)

/-- A session in which a policy is staged, and in which there are a list with several defects and
a list in which a binding stands twice. -/
private def drafted : List Step :=
  [.newBuilder "draft",
    .setBindings "draft" (.given (some [.binding (.name "viewer") (some [.text "allUsers"]) none]))
      false,
    .setEtag "draft" (some "QUJD"),
    .newList "faulty" [.binding (.name "viewer") (some [.text "allUsers"]) none,
      .binding (.value (some ⟨none⟩)) none none, .binding (.name "owner") (some [.absent]) none,
      .absent],
    .newList "twice" (List.replicate 2
      (.binding (.name "owner") (some [.text "user:ann"]) (some ⟨some "spring", none, some "t"⟩)))]

/-- The second entry of the one list decides, and of its two defects the missing name of the role,
so the builder builds what it built before. The other list is staged as it is. -/
theorem validation_outcome_drafted :
    let w := (run {} drafted).2
    let viewer : Binding :=
      ⟨some .viewer, some (OrderedSet.ofList [some ⟨.allUsers, none⟩]), none⟩
    let owner : Binding := ⟨some .owner, some (OrderedSet.ofList [some ⟨.user, some "ann"⟩]),
      some ⟨some "spring", none, some "t"⟩⟩
    let refusing := w.step (.setBindings "draft" (.named "faulty") false)
    refusing.1 = .refused (.fault (.defect .roleMissing)) (.ok ⟨[viewer], some "QUJD", 0⟩) ∧
      w.Grown refusing.2 ∧
      (w.step (.construct "stored" (.named "faulty") none 3)).1 =
        .failed (.fault (.defect .roleMissing)) ∧
      (w.step (.setBindings "draft" (.named "twice") false)).1 =
        .staged (.ok ⟨[owner, owner], some "QUJD", 0⟩) ∧
      (w.step (.construct "stored" (.named "twice") none 3)).1 =
        .policy ⟨[owner, owner], none, 3⟩ := by
  intro w viewer owner refusing
  have hmirrors : w.Mirrors (Session.run {} drafted).2 :=
    ((mirrors_empty (some 4300)).run drafted).2
  have hobject : w.builders.get? "draft" = some ⟨2, some "QUJD", 0⟩ := by decide +kernel
  have hinside : 2 < w.memory.sequences.length := by decide +kernel
  have hbuilder : w.memory.IsBuilder ⟨2, some "QUJD", 0⟩ ⟨[viewer], some "QUJD", 0⟩ :=
    ⟨by decide +kernel, rfl, rfl⟩
  have hlisted {list : String} {place : Place} (h : w.lists.get? list = some place) :
      sequence (.named list) w = .ok (some (w.memory.sequence place)) w :=
    Action.bind_of_ok (find_eq_ok h) _
  have hfaulty := hlisted (show w.lists.get? "faulty" = some 5 by decide +kernel)
  have htwice := hlisted (show w.lists.get? "twice" = some 6 by decide +kernel)
  have hgiven : (some (w.memory.sequence 5)).map w.memory.values = some ([some viewer] ++
      some ⟨some ⟨none⟩, none, none⟩ :: [some ⟨some .owner, some (OrderedSet.ofList [none]), none⟩,
        none]) := by
    decide +kernel
  have hdecides : Decides ((some (w.memory.sequence 5)).map w.memory.values) .roleMissing := by
    rw [hgiven]
    refine .entry (fun earlier hm => ?_) (by decide +kernel) _
    rw [List.mem_singleton.mp hm, not_isDefective_iff]
    decide +kernel
  have howners : (some (w.memory.sequence 6)).map w.memory.values =
      some ([owner, owner].map some) := by
    decide +kernel
  obtain ⟨_, _, hrefuses, _⟩ := validation_outcome w "draft" "stored" (.named "faulty") none 3
    hmirrors.tidy hobject hinside hbuilder hfaulty
  obtain ⟨_, _, _, hpasses, _⟩ := validation_outcome w "draft" "stored" (.named "twice") none 3
    hmirrors.tidy hobject hinside hbuilder htwice
  obtain ⟨hrefused, hgrown, _, hfailed, _⟩ := hrefuses _ hdecides
  obtain ⟨bindings, _, hbindings, _, _, hstaged, hmade⟩ := hpasses (by decide +kernel)
  obtain rfl : bindings = [owner, owner] :=
    List.map_injective_iff.mpr (fun _ _ => Option.some.inj)
      (Option.some.inj (hbindings.symm.trans howners))
  exact ⟨hrefused, hgrown, hfailed, hstaged, hmade⟩

end Workspace

end AccessPolicy
