import AccessPolicy.Proofs.Policy.Checking

/-!
# Calls on a builder

A builder is used through a sequence of calls, each of which finds what the calls before it left.
A call that is refused leaves the builder as it was, and building leaves it as it is in any case.
After any sequence of calls the staged bindings are those of the last call that staged any, and so
it is with the etag and the version: the builder consists of three registers in which the last
write wins.
-/

namespace AccessPolicy.Builder

/-- A call on a builder. -/
inductive Call where
  /-- Stages bindings, if they pass the check. -/
  | setBindings (entries : Option (List (Option Binding)))
  /-- Stages an etag. -/
  | setEtag (etag : Option String)
  /-- Stages a version. -/
  | setVersion (version : Int)
  /-- Builds the policy that is staged. -/
  | build

/-- The builder after a call. -/
def call (builder : Builder) : Call → Builder
  | .setBindings entries =>
    match builder.setBindings entries with
    | .ok changed => changed
    | .error _ => builder
  | .setEtag etag => builder.setEtag etag
  | .setVersion version => builder.setVersion version
  | .build => builder

/-- The builder after calls one after another. -/
def run (builder : Builder) (calls : List Call) : Builder := calls.foldl call builder

/-- The bindings that a call stages: those of a sequence that is there and has no defect. -/
def Call.staged? : Call → Option (List Binding)
  | .setBindings (some entries) =>
    if ∀ entry ∈ entries, entryDefect? entry = none then some (entries.filterMap id) else none
  | _ => none

/-- The bindings of the last call that stages any, or those of the start. -/
def lastStaged (start : List Binding) (calls : List Call) : List Binding :=
  (calls.filterMap Call.staged?).getLast?.getD start

/-- The etag that a call stages. -/
def Call.etag? : Call → Option (Option String)
  | .setEtag etag => some etag
  | _ => none

/-- The etag of the last call that stages one, or that of the start. -/
def lastEtag (start : Option String) (calls : List Call) : Option String :=
  (calls.filterMap Call.etag?).getLast?.getD start

/-- The version that a call stages. -/
def Call.version? : Call → Option Int
  | .setVersion version => some version
  | _ => none

/-- The version of the last call that stages one, or that of the start. -/
def lastVersion (start : Int) (calls : List Call) : Int :=
  (calls.filterMap Call.version?).getLast?.getD start

/-- Whether a call stages nothing: it builds, or its sequence is refused. -/
def Call.IsIdle (c : Call) : Prop :=
  c = .build ∨ ∃ entries defect, c = .setBindings entries ∧ checkedBindings entries = .error defect

/-- A call stages exactly the complete bindings of its sequence. -/
theorem Call.staged?_setBindings_eq_some_iff {entries : Option (List (Option Binding))}
    {bindings : List Binding} :
    (Call.setBindings entries).staged? = some bindings ↔
      entries = some (bindings.map some) ∧ ∀ binding ∈ bindings, binding.IsComplete := by
  cases entries with
  | none => simp only [staged?, reduceCtorEq, false_and]
  | some entries =>
    have hid (bs : List Binding) : (bs.map some).filterMap id = bs := by
      rw [List.filterMap_map]
      exact List.filterMap_some
    rw [staged?, Option.some.injEq]
    split
    · rename_i hd
      obtain ⟨complete, rfl, hc⟩ := entryDefect?_eq_none_iff.mp hd
      rw [hid, Option.some.injEq, List.map_inj_right fun _ _ => Option.some.inj]
      constructor
      · rintro rfl
        exact ⟨rfl, hc⟩
      · exact fun h => h.1
    · rename_i hd
      simp only [reduceCtorEq, false_iff]
      exact fun h => hd (entryDefect?_eq_none_iff.mpr ⟨bindings, h⟩)

/-- After a call the staged bindings are those that it stages, or else what they were. -/
theorem call_bindings (builder : Builder) (c : Call) :
    (builder.call c).bindings = c.staged?.getD builder.bindings := by
  cases c with
  | setBindings entries =>
    rw [call]
    cases hs : builder.setBindings entries with
    | ok changed =>
      obtain ⟨he, hc, _⟩ := setBindings_eq_ok_iff.mp hs
      rw [Call.staged?_setBindings_eq_some_iff.mpr ⟨he, hc⟩, Option.getD_some]
    | error defect =>
      cases hb : (Call.setBindings entries).staged? with
      | none => rfl
      | some bindings =>
        obtain ⟨he, hc⟩ := Call.staged?_setBindings_eq_some_iff.mp hb
        have hok : builder.setBindings entries = .ok { builder with bindings } :=
          setBindings_eq_ok_iff.mpr ⟨he, hc, rfl, rfl⟩
        rw [hs] at hok
        cases hok
  | setEtag etag => rfl
  | setVersion version => rfl
  | build => rfl

/-- What is staged last is what the first call stages, unless a later one stages something. -/
private theorem last_cons {α : Type} (staged? : Call → Option α) (start : α) (c : Call)
    (rest : List Call) :
    ((c :: rest).filterMap staged?).getLast?.getD start =
      (rest.filterMap staged?).getLast?.getD ((staged? c).getD start) := by
  rw [List.filterMap_cons]
  cases staged? c with
  | none => rfl
  | some value => rw [List.getLast?_cons, Option.getD_some, Option.getD_some]

/-- After calls the staged bindings are those of the last call that staged any. -/
theorem run_bindings (builder : Builder) (calls : List Call) :
    (builder.run calls).bindings = lastStaged builder.bindings calls := by
  induction calls generalizing builder with
  | nil => rfl
  | cons c rest ih =>
    rw [run, List.foldl_cons]
    refine (ih (builder.call c)).trans ?_
    rw [call_bindings, lastStaged, lastStaged, last_cons]

/-- A call writes the register of what it stages and no other. -/
theorem call_eq (builder : Builder) (c : Call) :
    builder.call c = ⟨c.staged?.getD builder.bindings, c.etag?.getD builder.etag,
      c.version?.getD builder.version⟩ := by
  rw [← call_bindings]
  cases c with
  | setBindings entries =>
    rw [call]
    cases hs : builder.setBindings entries with
    | error defect => rfl
    | ok changed =>
      obtain ⟨_, _, he, hv⟩ := setBindings_eq_ok_iff.mp hs
      simp only [Call.etag?, Call.version?, Option.getD_none, ← he, ← hv]
  | setEtag etag => rfl
  | setVersion version => rfl
  | build => rfl

/-- After calls each register holds what was staged in it last. -/
theorem run_eq (builder : Builder) (calls : List Call) :
    builder.run calls = ⟨lastStaged builder.bindings calls, lastEtag builder.etag calls,
      lastVersion builder.version calls⟩ := by
  rw [← run_bindings]
  induction calls generalizing builder with
  | nil => rfl
  | cons c rest ih =>
    have hrun : builder.run (c :: rest) = (builder.call c).run rest := rfl
    rw [hrun, ih (builder.call c), lastEtag, lastEtag, lastVersion, lastVersion, last_cons,
      last_cons, call_eq]

/-- A call that stages nothing leaves the builder as it is. -/
theorem call_of_isIdle {c : Call} (hc : c.IsIdle) (builder : Builder) :
    builder.call c = builder := by
  rcases hc with rfl | ⟨entries, defect, rfl, hd⟩
  · rfl
  · simp only [call, setBindings, hd, Except.map]

/-- Calls that stage nothing can be left out. -/
theorem run_of_isIdle {c : Call} (hc : c.IsIdle) (builder : Builder) (before after : List Call) :
    builder.run (before ++ c :: after) = builder.run (before ++ after) := by
  rw [run, run, List.foldl_append, List.foldl_append, List.foldl_cons, call_of_isIdle hc]

/-- A call keeps a builder complete. -/
theorem isComplete_call {builder : Builder} (hb : builder.IsComplete) (c : Call) :
    (builder.call c).IsComplete := by
  cases c with
  | setBindings entries =>
    rw [call]
    cases hs : builder.setBindings entries with
    | error defect => exact hb
    | ok changed => exact (setBindings_eq_ok_iff.mp hs).2.1
  | setEtag etag => exact hb
  | setVersion version => exact hb
  | build => exact hb

end AccessPolicy.Builder
