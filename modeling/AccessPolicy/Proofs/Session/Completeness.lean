import AccessPolicy.Proofs.Memory.Steps

/-!
# Sessions hold complete values

Whatever is done in a session, nothing is missing in its policies or in what is staged in its
builders. Building and taking a builder from a policy therefore never fail, and rebuilding a policy
gives the policy back.
-/

namespace AccessPolicy

/-- A binding is complete exactly if its role and the name of this are there, and so is its
identity set, in which the absent identity is not. -/
theorem Binding.isComplete_iff {binding : Binding} :
    binding.IsComplete ↔ ∃ role name identities, binding.role = some role ∧
      role.name = some name ∧ binding.identities = some identities ∧ none ∉ identities := by
  simp only [IsComplete, roleName?, Option.isSome_iff_exists, Option.bind_eq_some_iff,
    Option.mem_def]
  constructor
  · rintro ⟨⟨name, role, hr, hn⟩, identities, hi, hm⟩
    exact ⟨role, name, identities, hr, hn, hi, hm⟩
  · rintro ⟨role, name, identities, hr, hn, hi, hm⟩
    exact ⟨⟨name, role, hr, hn⟩, identities, hi, hm⟩

namespace Session

/-- An empty session is complete. -/
theorem isComplete_empty (digits : Option Nat) : IsComplete { digits } := by
  intro name thing h
  cases name <;> cases h

/-- What a step can do keeps a session complete. -/
theorem Effect.isComplete {session next : Session} {step : Step} {answer : Answer}
    (h : Effect session step answer next) (hs : session.IsComplete) : next.IsComplete := by
  cases h with
  | nothing _ => exact hs
  | logging _ => exact fun name thing hn => hs name thing (by cases name <;> exact hn)
  | write name thing _ hc _ =>
    intro other found hf
    rw [thing?_put] at hf
    split at hf
    · cases hf
      exact hc hs
    · exact hs other found hf

/-- A session stays complete while steps are taken. -/
theorem isComplete_run {session : Session} (hs : session.IsComplete) (steps : List Step) :
    (session.run steps).2.IsComplete := by
  induction steps generalizing session with
  | nil => exact hs
  | cons step rest ih => exact ih ((session.step_effect step).isComplete hs)

/-- After any steps a policy is complete. -/
theorem isComplete_of_run {digits : Option Nat} {steps : List Step} {name : String}
    {policy : Policy} (h : (run { digits } steps).2.policies.get? name = some policy) :
    policy.IsComplete :=
  isComplete_run (isComplete_empty digits) steps (.policy name) (.policy policy)
    (by rw [thing?, h]; rfl)

/-- After any steps nothing is missing in a policy or in what is staged in a builder, and in memory
no binding of them is absent. Every policy can be taken to a builder and is what this builds, and
every builder builds what is staged. -/
theorem run_complete (digits : Option Nat) (steps : List Step) (name target : String) :
    let last := (run { digits } steps).2
    let objects := (Workspace.run { digits } steps).2
    (∀ policy, last.policies.get? name = some policy →
      (∃ object, objects.policies.get? name = some object ∧ objects.memory.IsPolicy object policy) ∧
      (∀ binding ∈ policy.bindings, ∃ role roleName identities, binding.role = some role ∧
        role.name = some roleName ∧ binding.identities = some identities ∧ none ∉ identities) ∧
      (∃ builder, policy.toBuilder = .ok builder ∧ builder.build = .ok policy) ∧
      (last.step (.toBuilder name target)).1 = .policy policy) ∧
    ∀ builder, last.builders.get? name = some builder →
      (∃ object, objects.builders.get? name = some object ∧
        objects.memory.IsBuilder object builder) ∧
      (∀ binding ∈ builder.bindings, ∃ role roleName identities, binding.role = some role ∧
        role.name = some roleName ∧ binding.identities = some identities ∧ none ∉ identities) ∧
      builder.build = .ok ⟨builder.bindings, builder.etag, builder.version⟩ ∧
      (last.step (.build name target)).1 =
        .policy ⟨builder.bindings, builder.etag, builder.version⟩ := by
  intro last objects
  have hrun : last.IsComplete := isComplete_run (isComplete_empty digits) steps
  have hmirrors : objects.Mirrors last := ((Workspace.mirrors_empty digits).run steps).2
  refine ⟨fun policy hp => ?_, fun builder hb => ?_⟩
  · have hc : policy.IsComplete := hrun (.policy name) (.policy policy) (by rw [thing?, hp]; rfl)
    have hfind := find_eq_ok_iff.mpr hp
    have htake := Policy.toBuilder_of_complete hc
    have hbuild : Builder.build ⟨policy.bindings, policy.etag, policy.version⟩ = .ok policy :=
      Builder.build_eq_ok_iff.mpr ⟨hc, rfl⟩
    refine ⟨?_, fun binding hm => Binding.isComplete_iff.mp (hc binding hm), ⟨_, htake, hbuild⟩, ?_⟩
    · obtain ⟨object, ho, _, his⟩ := (hfind ▸ hmirrors.find_policy name).exists_ok
      exact ⟨object, find_eq_ok_iff.mp ho, his⟩
    · rw [step, hfind]
      simp only [bind, Except.bind, htake, hbuild, defective, Except.mapError, bindBuilder, attempt,
        pure, Except.pure]
  · have hc : builder.IsComplete :=
      hrun (.builder name) (.builder builder) (by rw [thing?, hb]; rfl)
    have hfind := find_eq_ok_iff.mpr hb
    have hbuild := Builder.build_of_complete hc
    refine ⟨?_, fun binding hm => Binding.isComplete_iff.mp (hc binding hm), hbuild, ?_⟩
    · obtain ⟨object, ho, _, his⟩ := (hfind ▸ hmirrors.find_builder name).exists_ok
      exact ⟨object, find_eq_ok_iff.mp ho, his⟩
    · rw [step, hfind]
      simp only [bind, Except.bind, hbuild, defective, Except.mapError, bindPolicy, attempt, pure,
        Except.pure]

/-- A policy that was made of a caller's list is complete although an absent identity was added to
the list afterwards, and so is a builder that refused to take the list over, while decoding with a
reader that has no identity for a text failed. -/
theorem run_complete_after_refusals :
    let steps : List Step :=
      [.newList "team" [.binding (.name "viewer") (some [.text "user:ann"]) none],
        .construct "stored" (.named "team") none 1, .toBuilder "stored" "draft",
        .listAdd "team" 0 .absent, .setBindings "draft" (.named "team") false,
        .setBindings "draft" (.given (some [.absent])) false, .encode "stored" "sent" .text,
        .decode "sent" "stored" fun _ => .ok none]
    let last := (run {} steps).2
    (∃ policy, last.policies.get? "stored" = some policy ∧
      (last.step (.toBuilder "stored" "copy")).1 = .policy policy) ∧
    ∃ builder, last.builders.get? "draft" = some builder ∧
      (last.step (.build "draft" "built")).1 =
        .policy ⟨builder.bindings, builder.etag, builder.version⟩ := by
  intro steps last
  obtain ⟨policy, hp⟩ : ∃ policy, last.policies.get? "stored" = some policy :=
    Option.isSome_iff_exists.mp (by decide +kernel)
  obtain ⟨builder, hb⟩ : ∃ builder, last.builders.get? "draft" = some builder :=
    Option.isSome_iff_exists.mp (by decide +kernel)
  obtain ⟨_, _, _, htaken⟩ := (run_complete (some 4300) steps "stored" "copy").1 policy hp
  obtain ⟨_, _, _, hbuilt⟩ := (run_complete (some 4300) steps "draft" "built").2 builder hb
  exact ⟨⟨policy, hp, htaken⟩, builder, hb, hbuilt⟩

end Session

end AccessPolicy
