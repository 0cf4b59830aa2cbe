import AccessPolicy.Proofs.Memory.Steps

/-!
# What steps leave alone

Policies never change. Whatever is done to the list of which a policy was made, to the builder that
built it or a builder that was taken from it, or to a message it was decoded from or encoded to, the
policy stays what it was when its name was bound. Builders and messages are changed by steps on them
and by no others.
-/

namespace AccessPolicy

variable {m : Memory}

/-- What an object is at present. -/
def Memory.thing (m : Memory) : Object → Thing
  | .builder object => .builder (m.builder object)
  | .policy object => .policy (m.policy object)
  | .list place => .list (m.entries place)
  | .message message => .message message

/-- An object that is a thing is seen as this thing. -/
theorem Memory.Is.thing_eq {object : Object} {thing : Thing} (h : m.Is object thing) :
    m.thing object = thing := by
  cases h with
  | builder h => exact congrArg Thing.builder h.builder_eq
  | policy h => exact congrArg Thing.policy h.policy_eq
  | list h => exact congrArg Thing.list h.entries
  | message _ => rfl

namespace Session

/-- A name that no step writes goes on to stand for the same thing. -/
theorem run_frame (session : Session) (steps : List Step) {name : Name}
    (h : ∀ taken ∈ steps.zip (session.run steps).1, taken.1.written? taken.2 ≠ some name) :
    (session.run steps).2.thing? name = session.thing? name := by
  induction steps generalizing session with
  | nil => rfl
  | cons step rest ih =>
    have hfirst := h (step, (session.step step).1) List.mem_cons_self
    have hrest := ih (session.step step).2 fun taken ht => h taken (List.mem_cons_of_mem _ ht)
    exact hrest.trans ((session.step_effect step).frame hfirst)

end Session

namespace Workspace

/-- What a name stands for at present. -/
def thing? (workspace : Workspace) (name : Name) : Option Thing :=
  (workspace.object? name).map workspace.memory.thing

/-- A name stands for what it stands for in the session that is mirrored. -/
theorem Mirrors.thing?_eq {w : Workspace} {s : Session} (h : w.Mirrors s) (name : Name) :
    w.thing? name = s.thing? name := by
  have hrel := h.things name
  rw [thing?]
  generalize w.object? name = object at hrel ⊢
  generalize s.thing? name = thing at hrel ⊢
  cases hrel with
  | none => rfl
  | some his => exact congrArg some his.thing_eq

/-- The policy that a name stands for is found. -/
theorem Mirrors.policy_of_thing? {w : Workspace} {s : Session} (h : w.Mirrors s) {name : String}
    {policy : Policy} (hn : w.thing? (.policy name) = some (.policy policy)) :
    w.policy name = .ok policy := by
  rw [h.thing?_eq] at hn
  obtain ⟨found, hf, heq⟩ := Option.map_eq_some_iff.mp hn
  cases heq
  exact (h.policy_eq name).trans (Session.find_eq_ok_iff.mpr hf)

section Policies

variable {w : Workspace} {name other : String} {policy found : Policy}

/-- A policy is told as it is. -/
theorem step_get (h : w.policy name = .ok policy) : w.step (.get name) = (.policy policy, w) := by
  change answered (EStateM.bind (MonadExcept.ofExcept (w.policy name)) _ w) = _
  rw [h]
  rfl

/-- Two policies are compared as they are. -/
theorem step_compare (h : w.policy name = .ok policy) (ho : w.policy other = .ok found) :
    w.step (.compare name other) = (.comparison (.of policy found), w) := by
  change answered (EStateM.bind (MonadExcept.ofExcept (w.policy name)) _ w) = _
  rw [h]
  change answered (EStateM.bind (MonadExcept.ofExcept (w.policy other)) _ w) = _
  rw [ho]
  rfl

/-- No field of a policy can be changed. -/
theorem step_assign (h : w.policy name = .ok policy) (field : String) :
    w.step (.assign name field) = (.refused (.fault (.frozen field)) (.ok policy), w) := by
  change answered (EStateM.bind (MonadExcept.ofExcept (w.policy name)) _ w) = _
  rw [h]
  rfl

end Policies

/-- Any steps have the answers that they have in a session, although the workspace works on objects.
A step leaves every name alone that it does not write. A policy of which a name was bound is told
whenever this name is asked for, until the name is written again, and no field of it can be
changed. -/
theorem run_isolated (digits : Option Nat) (before after : List Step) (step : Step) :
    let early := (run { digits } before).2
    let taken := early.step step
    let later := taken.2.run after
    (Session.run { digits } (before ++ step :: after)).1 =
      (run { digits } before).1 ++ taken.1 :: later.1 ∧
    (∀ name, step.written? taken.1 ≠ some name → taken.2.thing? name = early.thing? name) ∧
    ∀ name, step.written? taken.1 = some (.policy name) →
      (∀ other ∈ after.zip later.1, other.1.written? other.2 ≠ some (.policy name)) →
      ∃ policy, taken.1.policy? = some policy ∧
        (later.2.step (.get name)).1 = .policy policy ∧
        (∀ other found, later.2.thing? (.policy other) = some (.policy found) →
          (later.2.step (.compare name other)).1 = .comparison (.of policy found) ∧
          (later.2.step (.compare other name)).1 = .comparison (.of found policy)) ∧
        ∀ field, later.2.step (.assign name field) =
          (.refused (.fault (.frozen field)) (.ok policy), later.2) := by
  intro early taken later
  obtain ⟨hbefore, hearly⟩ := (mirrors_empty digits).run before
  obtain ⟨hanswer, htaken, _⟩ := hearly.step step
  obtain ⟨hafter, hlater⟩ := htaken.run after
  have heffect := (Session.run { digits } before).2.step_effect step
  rw [← hanswer] at heffect
  refine ⟨?_, fun name hw => ?_, fun name hw hkept => ?_⟩
  · rw [Session.answers_run_append, ← hbefore]
    exact congrArg _ (congrArg₂ List.cons hanswer.symm hafter.symm)
  · exact (htaken.thing?_eq name).trans ((heffect.frame hw).trans (hearly.thing?_eq name).symm)
  · obtain ⟨policy, htold, hbound⟩ := heffect.policy_of_written hw
    have hframe := Session.run_frame _ after (hafter ▸ hkept)
    have hpolicy : later.2.policy name = .ok policy :=
      hlater.policy_of_thing? ((hlater.thing?_eq _).trans (hframe.trans hbound))
    refine ⟨policy, htold, congrArg Prod.fst (step_get hpolicy), fun other found hother => ?_,
      fun field => step_assign hpolicy field⟩
    have hfound := hlater.policy_of_thing? hother
    exact ⟨congrArg Prod.fst (step_compare hpolicy hfound),
      congrArg Prod.fst (step_compare hfound hpolicy)⟩

/-- A policy made of a list stays what it was told to be while the list gets another identity and is
cleared, a builder that was taken from the policy is changed, and so is the message to which it was
encoded. -/
theorem run_isolated_from_list :
    let before : List Step :=
      [.newList "team" [.binding (.name "viewer") (some [.text "user:ann"]) none]]
    let step : Step := .construct "stored" (.named "team") none 1
    let after : List Step :=
      [.listAdd "team" 0 (.text "user:bob"), .listClear "team", .assign "stored" "version",
        .toBuilder "stored" "draft", .setVersion "draft" 3, .encode "stored" "sent" .text,
        .messageVersion "sent" 7]
    let taken := (run {} before).2.step step
    let later := taken.2.run after
    step.written? taken.1 = some (.policy "stored") ∧
    (∀ other ∈ after.zip later.1, other.1.written? other.2 ≠ some (.policy "stored")) ∧
    ∃ policy, taken.1.policy? = some policy ∧
      (later.2.step (.get "stored")).1 = .policy policy := by
  intro before step after taken later
  have hwritten : step.written? taken.1 = some (.policy "stored") := by decide +kernel
  have hkept : ∀ other ∈ after.zip later.1, other.1.written? other.2 ≠ some (.policy "stored") := by
    decide +kernel
  obtain ⟨policy, htold, hget, _⟩ :=
    (run_isolated (some 4300) before after step).2.2 "stored" hwritten hkept
  exact ⟨hwritten, hkept, policy, htold, hget⟩

end Workspace

end AccessPolicy
