import AccessPolicy.Proofs.Memory.Copies
import AccessPolicy.Proofs.Policy.Calls

/-!
# The registers of a builder

A builder in memory is handed sequences of bindings as objects, checks them and keeps copies. It
nevertheless is no more than three registers: whatever is called on it, it builds the bindings that
passed last, the etag that was staged last and the version that was staged last. What is in memory
already is not touched by any call.
-/

namespace AccessPolicy.Memory

variable {m : Memory}

/-- A call on a builder in memory. -/
inductive Call where
  /-- Stages copies of bindings, if they pass the check. -/
  | setBindings (source : Option (List (Option BindingObject)))
  /-- Stages an etag. -/
  | setEtag (etag : Option String)
  /-- Stages a version. -/
  | setVersion (version : Int)
  /-- Builds a policy of copies of what is staged. -/
  | build

/-- The registers of a builder. -/
inductive Register where
  | bindings
  | etag
  | version
  deriving DecidableEq, Repr

namespace Call

/-- The call on a builder that a call in memory is: objects count as what they are at present. -/
def value (m : Memory) : Call → Builder.Call
  | setBindings source => .setBindings (source.map m.values)
  | setEtag etag => .setEtag etag
  | setVersion version => .setVersion version
  | build => .build

/-- Whether the objects that are handed over are in memory. -/
def IsPresent (m : Memory) : Call → Prop
  | setBindings source => m.Present source
  | _ => True

/-- The register in which a call stages something. -/
def register? : Call → Option Register
  | setBindings _ => some .bindings
  | setEtag _ => some .etag
  | setVersion _ => some .version
  | build => none

/-- Whether two calls stage something in different registers. -/
def IsApart (c d : Call) : Prop :=
  ∃ register other, c.register? = some register ∧ d.register? = some other ∧ register ≠ other

end Call

/-- The builder and the memory that a call leaves behind, be it refused or not. -/
def call (state : BuilderObject × Memory) : Call → BuilderObject × Memory
  | .setBindings source => (setBindings source).left state
  | .setEtag etag => (setFields (fun _ => etag) id).left state
  | .setVersion version => (setFields id fun _ => version).left state
  | .build => build.left state

/-- The builder and the memory after calls one after another. -/
def run (state : BuilderObject × Memory) (calls : List Call) : BuilderObject × Memory :=
  calls.foldl call state

/-- The calls on a builder that calls in memory are, each at its time. -/
def called (state : BuilderObject × Memory) : List Call → List Builder.Call
  | [] => []
  | c :: rest => c.value state.2 :: called (call state c) rest

/-- Whether the objects that calls hand over are in memory, each at its time. -/
def AllPresent (state : BuilderObject × Memory) : List Call → Prop
  | [] => True
  | c :: rest => c.IsPresent state.2 ∧ AllPresent (call state c) rest

/-! ## What stays true while calls are made -/

/-- What it means that a builder in memory is a builder that can be built. -/
structure Holds (state : BuilderObject × Memory) (builder : Builder) : Prop where
  /-- Bindings share frozen sets only. -/
  tidy : state.2.Tidy
  /-- The staged bindings are there. -/
  inside : state.1.bindings < state.2.sequences.length
  /-- The object is the builder. -/
  isBuilder : state.2.IsBuilder state.1 builder
  /-- Nothing is missing in the staged bindings. -/
  complete : builder.IsComplete

/-- A builder that is put back while the memory grows is what it was. -/
theorem Holds.of_refused {state left : BuilderObject × Memory} {builder : Builder}
    (h : Holds state builder) (hr : Refused state.2 state.1 left) : Holds left builder := by
  obtain ⟨object, m'⟩ := left
  obtain ⟨rfl, hg⟩ := hr
  exact ⟨hg.tidy, h.inside.trans_le hg.keeps.grown, h.isBuilder.grow h.inside hg, h.complete⟩

/-- A call does to the object what it does to the builder, and keeps all that is in memory. -/
theorem Holds.call {state : BuilderObject × Memory} {builder : Builder} (h : Holds state builder)
    {c : Call} (hc : c.IsPresent state.2) :
    Holds (Memory.call state c) (builder.call (c.value state.2)) ∧
      Keeps none state.2 (Memory.call state c).2 := by
  have hcomplete := Builder.isComplete_call h.complete (c.value state.2)
  cases c with
  | setBindings source =>
    have hset := (setBindings_carries h.tidy hc h.isBuilder.etag h.isBuilder.version).left
    simp only [Memory.call, Call.value, Builder.call] at hcomplete ⊢
    rcases hset with ⟨defect, hrefused, hleft⟩ | ⟨_, changed, hstaged, hn, hb⟩
    · rw [hrefused]
      exact ⟨h.of_refused hleft, hleft.2.keeps⟩
    · rw [hstaged] at hcomplete ⊢
      exact ⟨⟨hn.tidy, hn.inside, hb, hcomplete⟩, hn.keeps⟩
  | setEtag etag =>
    exact ⟨⟨h.tidy, h.inside, ⟨h.isBuilder.entries, rfl, h.isBuilder.version⟩, hcomplete⟩,
      .refl state.2⟩
  | setVersion version =>
    exact ⟨⟨h.tidy, h.inside, ⟨h.isBuilder.entries, h.isBuilder.etag, rfl⟩, hcomplete⟩,
      .refl state.2⟩
  | build =>
    -- What is built lies elsewhere, so the builder finds its own bindings as they were.
    have hleft : Refused state.2 state.1 (Memory.call state .build) := by
      rcases (build_carries h.tidy h.isBuilder).left with ⟨_, _, hleft⟩ | ⟨_, _, _, hobject, hn, _⟩
      · exact hleft
      · exact ⟨hobject, hn.toGrows⟩
    exact ⟨h.of_refused hleft, hleft.2.keeps⟩

/-- Calls do to the object what they do to the builder, and keep all that is in memory. -/
theorem Holds.run {state : BuilderObject × Memory} {builder : Builder} (h : Holds state builder)
    {calls : List Call} (hc : AllPresent state calls) :
    Holds (Memory.run state calls) (builder.run (called state calls)) ∧
      Keeps none state.2 (Memory.run state calls).2 := by
  induction calls generalizing state builder with
  | nil => exact ⟨h, .refl state.2⟩
  | cons c rest ih =>
    obtain ⟨hnext, hkeeps⟩ := h.call hc.1
    obtain ⟨hlast, hrest⟩ := ih hnext hc.2
    exact ⟨hlast, hkeeps.trans hrest⟩

/-- What a builder in memory builds is what the builder holds. -/
theorem Holds.build {state : BuilderObject × Memory} {builder : Builder} (h : Holds state builder) :
    ∃ built next, Memory.build state = .ok built next ∧
      next.2.policy built = ⟨builder.bindings, builder.etag, builder.version⟩ := by
  have hbuild := build_carries h.tidy h.isBuilder
  rw [Builder.build_of_complete h.complete] at hbuild
  obtain ⟨built, next, hb, _, _, hp⟩ := hbuild.exists_ok
  exact ⟨built, next, hb, hp.policy_eq⟩

/-- Staging bindings neither looks at the other fields nor changes them. -/
private theorem call_setBindings_setFields (state : BuilderObject × Memory)
    (source : Option (List (Option BindingObject))) (etag : Option String → Option String)
    (version : Int → Int) :
    (setFields etag version).left ((setBindings source).left state) =
      (setBindings source).left ((setFields etag version).left state) := by
  obtain ⟨object, m⟩ := state
  have hleft (object : BuilderObject) : (setBindings source).left (object, m) =
      match copyBindings source m with
      | .ok place m' => ({ object with bindings := place }, m')
      | .error _ m' => (object, m') := by
    simp only [setBindings, beside, Action.left, Action.within, bind, EStateM.bind]
    cases copyBindings source m <;> rfl
  have hfields (state : BuilderObject × Memory) : (setFields etag version).left state =
      ({ state.1 with etag := etag state.1.etag, version := version state.1.version }, state.2) :=
    rfl
  rw [hfields (object, m), hleft, hleft]
  cases copyBindings source m <;> rfl

/-- It makes no difference which of two calls comes first if they stage something in different
registers. -/
theorem call_comm {c d : Call} (h : c.IsApart d) (state : BuilderObject × Memory) :
    call (call state c) d = call (call state d) c := by
  obtain ⟨register, other, hc, hd, hne⟩ := h
  cases c with
  | setBindings source =>
    cases hc
    cases d with
    | setBindings source' => exact absurd (Option.some.inj hd) hne
    | setEtag etag => exact call_setBindings_setFields state source (fun _ => etag) id
    | setVersion version => exact call_setBindings_setFields state source id fun _ => version
    | build => cases hd
  | setEtag etag =>
    cases hc
    cases d with
    | setBindings source =>
      exact (call_setBindings_setFields state source (fun _ => etag) id).symm
    | setEtag etag' => exact absurd (Option.some.inj hd) hne
    | setVersion version => rfl
    | build => cases hd
  | setVersion version =>
    cases hc
    cases d with
    | setBindings source =>
      exact (call_setBindings_setFields state source id fun _ => version).symm
    | setEtag etag => rfl
    | setVersion version' => exact absurd (Option.some.inj hd) hne
    | build => cases hd
  | build => cases hc

/-- So it makes no difference in a run of calls either. -/
theorem run_comm {c d : Call} (h : c.IsApart d) (state : BuilderObject × Memory)
    (before after : List Call) :
    run state (before ++ c :: d :: after) = run state (before ++ d :: c :: after) := by
  simp only [run, List.foldl_append, List.foldl_cons, call_comm h]

/-! ## Opening a builder -/

/-- Opens a builder: an empty one, or one that starts from a policy. -/
def openBuilder : Option PolicyObject → Action Defect Memory BuilderObject
  | none => modifyGet newBuilder
  | some policy => toBuilder policy

/-- What is staged in a builder when it is opened. -/
def opening (m : Memory) : Option PolicyObject → Builder
  | none => {}
  | some object =>
    ⟨(m.policy object).bindings, (m.policy object).etag, (m.policy object).version⟩

/-- Whether an object is a policy in which nothing is missing. -/
def HoldsPolicy (m : Memory) (object : PolicyObject) : Prop :=
  object.bindings < m.sequences.length ∧ ∃ policy, m.IsPolicy object policy ∧ policy.IsComplete

/-- Every policy that is put together is one in which nothing is missing. -/
theorem holdsPolicy_construct {m' : Memory} (hm : m.Tidy)
    {source : Option (List (Option BindingObject))} (hs : m.Present source) {etag : Option String}
    {version : Int} {made : PolicyObject} (h : construct source etag version m = .ok made m') :
    m'.Tidy ∧ m'.HoldsPolicy made := by
  have hconstruct := construct_carries hm hs etag version
  rw [h] at hconstruct
  generalize hp : Policy.construct (source.map m.values) etag version = outcome at hconstruct
  cases hconstruct with
  | value related =>
    obtain ⟨hn, his⟩ := related
    obtain ⟨_, hc, _⟩ := Policy.construct_eq_ok_iff.mp hp
    exact ⟨hn.tidy, hn.inside, _, his, hc⟩

/-- A builder can be opened from every policy, and then it is what it should be. -/
theorem exists_openBuilder (hm : m.Tidy) {seed : Option PolicyObject}
    (hseed : ∀ object ∈ seed, m.HoldsPolicy object) :
    ∃ opened m', openBuilder seed m = .ok opened m' ∧ Holds (opened, m') (m.opening seed) ∧
      Keeps none m m' := by
  cases seed with
  | none =>
    obtain ⟨hn, hb⟩ := newBuilder_spec hm
    have hempty : Builder.IsComplete {} := fun _ hbinding => absurd hbinding List.not_mem_nil
    exact ⟨_, _, rfl, ⟨hn.tidy, hn.inside, hb, hempty⟩, hn.keeps⟩
  | some object =>
    obtain ⟨hinside, policy, hp, hc⟩ := hseed object rfl
    have htake := toBuilder_carries hm hinside hp
    rw [Policy.toBuilder_of_complete hc] at htake
    obtain ⟨opened, m', ho, hn, hb⟩ := htake.exists_ok
    have hopening : m.opening (some object) = ⟨policy.bindings, policy.etag, policy.version⟩ := by
      rw [opening, hp.policy_eq]
    exact ⟨opened, m', ho, hopening ▸ ⟨hn.tidy, hn.inside, hb, hc⟩, hn.keeps⟩

/-- A builder can be opened empty and from every policy. Whatever is called on it from then on, what
it builds has the bindings that passed the check last, as they were when they were handed over, the
etag that was staged last and the version that was staged last, each of them from the start if there
was no such call. Calls that build or are refused might as well not be made, and calls that stage
something in different registers might be made in any order. No call changes what is in memory. -/
theorem build_run_last {m : Memory} (hm : m.Tidy) {seed : Option PolicyObject}
    (hseed : ∀ object ∈ seed, m.HoldsPolicy object) :
    ∃ opened m', openBuilder seed m = .ok opened m' ∧ ∀ calls, AllPresent (opened, m') calls →
      let start := m.opening seed
      let given := called (opened, m') calls
      let last := run (opened, m') calls
      (∃ built next policy, build last = .ok built next ∧ next.2.policy built = policy ∧
        policy = ⟨Builder.lastStaged start.bindings given, Builder.lastEtag start.etag given,
          Builder.lastVersion start.version given⟩ ∧
        ∀ before c after, given = before ++ c :: after → c.IsIdle →
          (start.run (before ++ after)).build = .ok policy) ∧
      (∀ before c d after, calls = before ++ c :: d :: after → c.IsApart d →
        run (opened, m') (before ++ d :: c :: after) = last) ∧
      Keeps none m last.2 := by
  obtain ⟨opened, m', hopened, hholds, hkeeps⟩ := exists_openBuilder hm hseed
  refine ⟨opened, m', hopened, fun calls hpresent => ?_⟩
  intro start given last
  obtain ⟨hlast, hrest⟩ := hholds.run hpresent
  obtain ⟨built, next, hb, hp⟩ := hlast.build
  refine ⟨⟨built, next, _, hb, hp, ?_, fun before c after hgiven hc => ?_⟩,
    fun before c d after hcalls hcd => ?_, hkeeps.trans hrest⟩
  · rw [Builder.run_eq]
  · rw [← Builder.run_of_isIdle hc, ← hgiven]
    exact Builder.build_of_complete hlast.complete
  · rw [← run_comm hcd, ← hcalls]

/-- A binding to a single user under a condition. -/
private def single : Binding :=
  ⟨some (Role.ofName "viewer"), some (.ofList [some ⟨.user, some "ann"⟩]), some ⟨none, none, "e"⟩⟩

/-- A caller's list of this binding, whose identity set can grow. -/
private def listed : List (Option BindingObject) × Memory :=
  ({} : Memory).objects false [some single]

/-- A policy that is made of the list, with a frozen set of its own. -/
private def stored : PolicyObject × Memory :=
  (⟨0, some "QQ==", 1⟩, ⟨listed.2.sets ++ [⟨.ofList [some ⟨.user, some "ann"⟩], true⟩],
    [[some ⟨single.role, some 1, single.condition⟩]]⟩)

/-- Calls in which the list is staged twice over after two refusals. -/
private def mixed : List Call :=
  [.setBindings none, .setEtag (some "Qg=="), .build, .setBindings (some []), .setVersion 3,
    .setBindings (some [none]), .setBindings (some (listed.1 ++ listed.1)), .build, .setEtag none]

/-- A builder that was opened from the policy builds what was staged last. -/
theorem build_run_last_mixed :
    (stored.2.Tidy ∧ ∀ object ∈ some stored.1, stored.2.HoldsPolicy object) ∧
    ∃ opened m', openBuilder (some stored.1) stored.2 = .ok opened m' ∧
      AllPresent (opened, m') mixed ∧
      let last := run (opened, m') mixed
      ∃ built next, build last = .ok built next ∧
        next.2.policy built = ⟨[single, single], none, 3⟩ := by
  have hlisted := made_objects false {} [some single]
  have hmade : construct (some listed.1) (some "QQ==") 1 listed.2 = .ok stored.1 stored.2 := rfl
  obtain ⟨htidy, hholds⟩ := holdsPolicy_construct (hlisted.tidy tidy_empty) hlisted.present hmade
  have hseed : ∀ object ∈ some stored.1, stored.2.HoldsPolicy object := by
    rintro object ⟨⟩
    exact hholds
  obtain ⟨opened, m', hopened, hall⟩ := build_run_last htidy hseed
  have hpresent : AllPresent (opened, m') mixed := by
    cases hopened
    simp only [AllPresent, mixed, Call.IsPresent, Present, and_true, true_and]
    decide +kernel
  obtain ⟨⟨built, next, policy, hb, hp, hlast, _⟩, _⟩ := hall mixed hpresent
  refine ⟨⟨htidy, hseed⟩, opened, m', hopened, hpresent, built, next, hb, ?_⟩
  rw [hp, hlast]
  cases hopened
  decide +kernel

end AccessPolicy.Memory
