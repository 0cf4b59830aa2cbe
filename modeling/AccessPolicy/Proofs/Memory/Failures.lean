import AccessPolicy.Proofs.Memory.Isolation

/-!
# Steps that fail

A step may fail halfway, when some bindings are checked, some members are read, some things are made
in memory and some conditions are warned of. What it has made until then stays in memory, but no
name stands for it and nothing refers to it. So all names stand for what they stood for, a session
goes on after the step as if it had not been taken, and any steps that failed can be left out.
-/

namespace AccessPolicy

/-- Whether steps with their answers are what is left after some steps that failed are left out. -/
inductive LeavesOut : List (Step × Answer) → List (Step × Answer) → Prop where
  | nil : LeavesOut [] []
  /-- A step is kept. -/
  | keep (taken : Step × Answer) {all kept : List (Step × Answer)} (rest : LeavesOut all kept) :
      LeavesOut (taken :: all) (taken :: kept)
  /-- A step that failed is left out. -/
  | leave {taken : Step × Answer} {all kept : List (Step × Answer)}
      (failed : taken.2.isError = true) (rest : LeavesOut all kept) : LeavesOut (taken :: all) kept

/-- All steps that failed can be left out. -/
theorem leavesOut_filter (all : List (Step × Answer)) :
    LeavesOut all (all.filter fun taken => !taken.2.isError) := by
  induction all with
  | nil => exact .nil
  | cons taken rest ih =>
    rw [List.filter_cons]
    split
    · exact .keep taken ih
    · rename_i h
      exact .leave (by simpa using h) ih

/-- An answer that tells a failure tells that nothing was written. -/
theorem Step.written?_of_isError (step : Step) {answer : Answer} (h : answer.isError = true) :
    step.written? answer = none := by
  cases answer with
  | failed failure => exact Session.written?_failed step failure
  | refused failure state => cases step <;> rfl
  | decoded outcome =>
    cases step with
    | decode message target parse =>
      rw [Step.written?_decode]
      rw [Answer.isError] at h
      cases hresult : outcome.result with
      | error fault => rfl
      | ok policy =>
        rw [hresult] at h
        cases h
    | _ => rfl
  | encoded outcome =>
    cases step with
    | encode policy target format =>
      rw [Step.written?_encode]
      rw [Answer.isError] at h
      cases hresult : outcome.result with
      | error fault => rfl
      | ok message =>
        rw [hresult] at h
        cases h
    | _ => rfl
  | _ => cases h

/-- A step on values that fails changes nothing. -/
theorem Session.step_of_isError {session : Session} {step : Step}
    (h : (session.step step).1.isError = true) : (session.step step).2 = session := by
  have heffect := session.step_effect step
  have hwritten := step.written?_of_isError h
  generalize (session.step step).1 = answer at h heffect hwritten
  generalize (session.step step).2 = next at heffect ⊢
  cases heffect with
  | nothing _ => rfl
  | logging _ => cases h
  | write name thing hw _ _ =>
    rw [hwritten] at hw
    cases hw

/-- Any steps on values that failed can be left out: the others are answered as they were, and the
session ends as it did. -/
theorem Session.run_of_leavesOut (session : Session) (steps : List Step)
    {kept : List (Step × Answer)} (h : LeavesOut (steps.zip (session.run steps).1) kept) :
    session.run (kept.map Prod.fst) = (kept.map Prod.snd, (session.run steps).2) := by
  induction steps generalizing session kept with
  | nil =>
    cases h
    rfl
  | cons step rest ih =>
    rw [run_cons] at h ⊢
    cases h with
    | keep _ hrest =>
      rw [List.map_cons, run_cons, ih _ hrest]
      rfl
    | leave hfailed hrest =>
      rw [step_of_isError hfailed] at hrest ⊢
      exact ih session hrest

namespace Workspace

/-- Steps that fail have no effect. Whatever was done before, all names stand for the same objects
after a step that fails, everything in memory is kept, so nothing is different under any name, and
any steps after it have the answers that they would have had. So whichever failed steps are left out
of a session, the remaining ones have the same answers with the same records, and all names end up
standing for the same. -/
theorem run_without_failures (digits : Option Nat) (steps : List Step) :
    let last := (run { digits } steps).2
    (∀ step, (last.step step).1.isError = true →
      last.Grown (last.step step).2 ∧
      (∀ name, (last.step step).2.thing? name = last.thing? name) ∧
      ∀ rest, ((last.step step).2.run rest).1 = (last.run rest).1) ∧
    ∀ kept, LeavesOut (steps.zip (run { digits } steps).1) kept →
      (run { digits } (kept.map Prod.fst)).1 = kept.map Prod.snd ∧
      (Session.run { digits } (kept.map Prod.fst)).1 = kept.map Prod.snd ∧
      ∀ name, (run { digits } (kept.map Prod.fst)).2.thing? name = last.thing? name := by
  intro last
  obtain ⟨hanswers, hlast⟩ := (mirrors_empty digits).run steps
  refine ⟨fun step hfailed => ?_, fun kept hkept => ?_⟩
  · have hstep := hlast.step step
    have hfailed' := hfailed
    rw [hstep.answer] at hfailed'
    have hnext := hstep.mirrors
    rw [Session.step_of_isError hfailed'] at hnext
    refine ⟨hstep.grown hfailed, fun name => ?_, fun rest => ?_⟩
    · rw [hnext.thing?_eq, hlast.thing?_eq]
    · rw [(hnext.run rest).1, (hlast.run rest).1]
  · rw [hanswers] at hkept
    have hsession := Session.run_of_leavesOut _ steps hkept
    obtain ⟨hremaining, hend⟩ := (mirrors_empty digits).run (kept.map Prod.fst)
    rw [hsession] at hremaining hend
    refine ⟨hremaining, congrArg Prod.fst hsession, fun name => ?_⟩
    rw [hend.thing?_eq, hlast.thing?_eq]

/-- Steps of which every other one fails: bindings are refused, a policy cannot be put together or
changed, a text is no document, members have no identity and an etag is not Base64. -/
private def troubled : List Step :=
  [.logging true,
    .setBindings "draft" (.given (some [])) false,
    .newBuilder "draft",
    .setBindings "draft" (.given (some [.absent, .binding (.name "owner") (some []) none])) true,
    .setBindings "draft" (.given (some [.binding (.name "viewer") (some [.text "allUsers"]) none]))
      false,
    .construct "stored" (.given none) none 1,
    .build "draft" "stored",
    .assign "stored" "etag",
    .encode "stored" "sent" .text,
    .read "sent" (.text "[1, 2"),
    .setEtag "draft" (some "!"),
    .decode "sent" "stored" fun _ => .ok none,
    .build "draft" "stored",
    .encode "stored" "sent" .text,
    .write "sent"]

/-- All the failed ones can be left out, although bindings are made in memory by some of them, and
one more that fails changes nothing. -/
theorem run_without_failures_troubled :
    let taken := troubled.zip (run {} troubled).1
    let kept := taken.filter fun taken => !taken.2.isError
    let last := (run {} troubled).2
    taken.map (fun taken => taken.2.isError) = [false, true, false, true, false, true, false, true,
      false, true, false, true, false, true, false] ∧
    LeavesOut taken kept ∧ (run {} (kept.map Prod.fst)).1 = kept.map Prod.snd ∧
    (run {} (kept.map Prod.fst)).2.memory ≠ last.memory ∧
    (last.step (.assign "stored" "etag")).1.isError = true ∧
    last.Grown (last.step (.assign "stored" "etag")).2 := by
  intro taken kept last
  have hfailed : taken.map (fun taken => taken.2.isError) = [false, true, false, true, false, true,
      false, true, false, true, false, true, false, true, false] := by
    decide +kernel
  have hleaves : LeavesOut taken kept := leavesOut_filter taken
  have hmore : (run {} (kept.map Prod.fst)).2.memory ≠ last.memory := by decide +kernel
  have hfrozen : (last.step (.assign "stored" "etag")).1.isError = true := by decide +kernel
  obtain ⟨hsame, hleft⟩ := run_without_failures (some 4300) troubled
  exact ⟨hfailed, hleaves, (hleft kept hleaves).1, hmore, hfrozen, (hsame _ hfrozen).1⟩

end Workspace

end AccessPolicy
