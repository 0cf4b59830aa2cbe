import AccessPolicy.Proofs.Memory.Conversions
import AccessPolicy.Proofs.Memory.Mirroring

/-!
# Steps in memory

A step that is taken by a workspace has the answer that it has in the session that the workspace
mirrors, and the workspace mirrors the session afterwards. So both give the same answers to any
steps. A step that fails may have made things before it failed, but no name stands for them.
-/

namespace AccessPolicy.Workspace

open Memory (IsPolicy IsBuilder IsList Grows NewAt Refused)

variable {w : Workspace} {s : Session}

/-! ## Looking up names -/

/-- Looking up a name in two tables matches if the objects and things in them go together. -/
theorem find_matches {α β : Type} {R : α → β → Prop} {table : Table α} {table' : Table β}
    {name : String} {m : Memory} (f : α → Object) (g : β → Thing)
    (h : Option.Rel m.Is ((table.get? name).map f) ((table'.get? name).map g))
    (hr : ∀ a b, table.get? name = some a → m.Is (f a) (g b) → R a b) :
    Matches R (Session.find table name) (Session.find table' name) := by
  rw [Session.find, Session.find]
  generalize table.get? name = x at h hr
  generalize table'.get? name = y at h
  cases x <;> cases y <;> cases h
  · exact .error _
  · rename_i his
    exact .value (hr _ _ rfl his)

/-- A name stands for a builder in both or in neither. -/
theorem Mirrors.find_builder (h : w.Mirrors s) (name : String) :
    Matches (fun object builder => w.object? (.builder name) = some (.builder object) ∧
        w.memory.IsBuilder object builder)
      (Session.find w.builders name) (Session.find s.builders name) :=
  find_matches .builder .builder (h.things (.builder name)) fun object builder hobject his => by
    cases his with
    | builder hb => exact ⟨congrArg (Option.map Object.builder) hobject, hb⟩

/-- A name stands for a policy in both or in neither. -/
theorem Mirrors.find_policy (h : w.Mirrors s) (name : String) :
    Matches (fun object policy => w.object? (.policy name) = some (.policy object) ∧
        w.memory.IsPolicy object policy)
      (Session.find w.policies name) (Session.find s.policies name) :=
  find_matches .policy .policy (h.things (.policy name)) fun object policy hobject his => by
    cases his with
    | policy hp => exact ⟨congrArg (Option.map Object.policy) hobject, hp⟩

/-- A name stands for a list in both or in neither. -/
theorem Mirrors.find_list (h : w.Mirrors s) (name : String) :
    Matches (fun place entries => w.object? (.list name) = some (.list place) ∧
        w.memory.IsList place entries)
      (Session.find w.lists name) (Session.find s.lists name) :=
  find_matches .list .list (h.things (.list name)) fun place entries hobject his => by
    cases his with
    | list hl => exact ⟨congrArg (Option.map Object.list) hobject, hl⟩

/-- A name stands for the same message in both or in neither. -/
theorem Mirrors.find_message (h : w.Mirrors s) (name : String) :
    Matches Eq (Session.find w.messages name) (Session.find s.messages name) :=
  find_matches .message .message (h.things (.message name)) fun _ _ _ his => by
    cases his with
    | message _ => rfl

/-- A name stands for an object that is the policy for which it stands in the session. -/
theorem Mirrors.policy_eq (h : w.Mirrors s) (name : String) :
    w.policy name = Session.find s.policies name :=
  (h.find_policy name).map_eq fun _ _ ⟨_, hp⟩ => hp.policy_eq

theorem Mirrors.policy_matches (h : w.Mirrors s) (name : String) :
    Matches Eq (w.policy name) (Session.find s.policies name) := by
  rw [h.policy_eq]
  exact .refl _

/-- The objects of a source are what the source stands for in the session. -/
theorem Mirrors.sequence_carries (h : w.Mirrors s) (source : BindingsSource) :
    Carries (fun objects w' entries => w.Grown w' ∧ w'.memory.Present objects ∧
        objects.map w'.memory.values = entries) w.Grown
      (sequence source w) (s.sequence source) := by
  cases source with
  | given entries =>
    refine (Carries.ofExcept (.refl _) h.grown).andThen ?_
    rintro resolved w' _ - ⟨rfl, rfl⟩
    cases resolved with
    | none => exact .value ⟨h.grown, nofun, rfl⟩
    | some entries =>
      have hmade := Memory.made_objects true w'.memory entries
      exact .value ⟨w'.grown_of_grows (hmade.grows h.tidy), hmade.present,
        congrArg some hmade.values⟩
  | named list =>
    refine (Carries.ofExcept (h.find_list list) h.grown).map ?_
    rintro place w' entries ⟨rfl, _, hl⟩
    exact .value ⟨h.grown, h.tidy.present_sequence place, congrArg some hl.entries⟩

/-- So they are in the order in which they are to be used. -/
theorem Mirrors.ordered_carries (h : w.Mirrors s) (source : BindingsSource) (reversed : Bool) :
    Carries (fun objects w' entries => w.Grown w' ∧ w'.memory.Present objects ∧
        objects.map w'.memory.values = entries) w.Grown
      (ordered source reversed w) (s.ordered source reversed) := by
  refine (h.sequence_carries source).map ?_
  rintro objects w' entries ⟨hg, hp, he⟩
  refine .value ⟨hg, ?_⟩
  cases reversed with
  | false => exact ⟨hp, he⟩
  | true =>
    refine ⟨fun backwards hb set hset => ?_, ?_⟩
    · obtain ⟨forwards, hf, rfl⟩ := Option.map_eq_some_iff.mp hb
      rw [Memory.places, List.filterMap_reverse] at hset
      exact hp forwards hf set (List.mem_reverse.mp hset)
    · rw [← he]
      cases objects with
      | none => rfl
      | some forwards => exact congrArg some List.map_reverse

/-! ## Working on parts -/

section Parts

variable {α β : Type} {R : α → Memory → β → Prop} {y : Except Defect β}

/-- Work on the memory that keeps everything leaves all names alone. -/
theorem inMemory_carries {action : Action Defect Memory α}
    (h : Carries R (Grows w.memory) (action w.memory) y) :
    Carries (fun a w' b => ∃ m, w' = { w with memory := m } ∧ R a m b) w.Grown
      (defective (inMemory action) w) (Session.defective y) := by
  have hwithin := Carries.within (fun m workspace => { workspace with memory := m }) h
  refine (hwithin.imp (fun _ _ _ h => h) ?_).adapt _
  rintro _ ⟨m, rfl, hg⟩
  exact w.grown_of_grows hg

/-- A call on the builder of a name that does nothing if it is refused leaves all names alone in
this case. -/
theorem calling_carries {R : α → BuilderObject × Memory → β → Prop} {name : String}
    {object : BuilderObject} {action : Action Defect (BuilderObject × Memory) α}
    (hobject : w.object? (.builder name) = some (.builder object))
    (h : Carries R (Refused w.memory object) (action (object, w.memory)) y) :
    Carries (fun a w' b => ∃ next : BuilderObject × Memory,
        w' = { w with memory := next.2, builders := w.builders.set name next.1 } ∧ R a next b)
      w.Grown (calling name object action w) y := by
  refine Carries.imp (.within _ h) (fun _ _ _ h => h) ?_
  rintro _ ⟨⟨_, m⟩, rfl, rfl, hg⟩
  exact grown_of_refused hobject hg

/-- A call on the builder of a name comes to the same if it does on the builder. -/
theorem Mirrors.onBuilder_carries (h : w.Mirrors s) (name : String)
    {R : α → BuilderObject × Memory → β → Prop}
    {action : Action Defect (BuilderObject × Memory) α} {call : Builder → Except Defect β}
    (hc : ∀ object builder, w.object? (.builder name) = some (.builder object) →
      w.memory.IsBuilder object builder →
        Carries R (Refused w.memory object) (action (object, w.memory)) (call builder)) :
    Carries (fun a w' b => ∃ next : BuilderObject × Memory,
        w' = { w with memory := next.2, builders := w.builders.set name next.1 } ∧ R a next b)
      w.Grown (onBuilder name action w)
      ((Session.find s.builders name).bind fun builder => Session.defective (call builder)) := by
  refine Carries.take (h.find_builder name) h.grown ?_
  rintro object builder ⟨hobject, hb⟩
  exact (calling_carries hobject (hc object builder hobject hb)).adapt _

end Parts

/-- The builder of a name builds in memory what the builder builds that it is. -/
theorem state_carries (hm : w.memory.Tidy) {name : String} {object : BuilderObject}
    {builder : Builder} (hobject : w.object? (.builder name) = some (.builder object))
    (hb : w.memory.IsBuilder object builder) :
    Carries (fun seen w' seen' => seen = seen' ∧ w.Grown w') w.Grown (state name w)
      (.ok builder.build) := by
  have hfound : Matches Eq (Session.find w.builders name) (.ok object) := by
    rw [Session.find_eq_ok_iff.mpr (object?_builder_eq_iff.mp hobject)]
    exact .refl _
  refine (Carries.ofExcept hfound (w.grown_of_tidy hm)).goOn ?_
  rintro _ w' ⟨rfl, rfl⟩
  have hbuilt := calling_carries hobject (Memory.built_carries hm hb)
  refine hbuilt.settled ?_ fun _ _ hg => ⟨rfl, hg⟩
  rintro _ _ seen ⟨⟨_, m⟩, rfl, rfl, rfl, hg⟩
  exact ⟨rfl, grown_of_refused hobject hg⟩

/-- So it builds what it builds in the session. -/
theorem Mirrors.state_carries (h : w.Mirrors s) {name : String} {builder : Builder}
    (hfind : Session.find s.builders name = .ok builder) :
    Carries (fun seen w' seen' => seen = seen' ∧ w.Grown w') w.Grown (state name w)
      (.ok builder.build) := by
  have hfound := h.find_builder name
  rw [hfind] at hfound
  obtain ⟨object, _, hobject, hb⟩ := hfound.exists_ok
  exact Workspace.state_carries h.tidy hobject hb

/-! ## Taking steps -/

/-- What it means that a step comes to the same in a workspace and in a session. -/
structure Follows (w : Workspace) (taken : Workspace.Result) (taken' : Session.Result) : Prop where
  /-- The answers are the same. -/
  answer : taken.1 = taken'.1
  /-- The workspace mirrors the session. -/
  mirrors : taken.2.Mirrors taken'.2
  /-- If the step failed, all names stand for the objects that they stood for. -/
  grown : taken.1.isError = true → w.Grown taken.2

/-- A computation comes to the same if what it answers does. -/
theorem answered_follows (h : w.Mirrors s) {outcome : EStateM.Result Failure Workspace Answer}
    {result : Except Failure Session.Result}
    (hc : Carries (fun answer next taken => Follows w (answer, next) taken) w.Grown outcome result) :
    Follows w (answered outcome) (s.attempt result) := by
  cases hc with
  | value related => exact related
  | error failure left => exact ⟨rfl, h.grow left, fun _ => left⟩

/-- What is answered without a failure comes to the same. -/
theorem follows_of_ok {answer : Answer} {next : Workspace} {taken : Session.Result}
    (ha : answer = taken.1) (hm : next.Mirrors taken.2) (hok : answer.isError = false) :
    Follows w (answer, next) taken :=
  ⟨ha, hm, fun hfailed => absurd (hok.symm.trans hfailed) Bool.false_ne_true⟩

/-- A computation that only looks comes to the same. -/
theorem Mirrors.look (h : w.Mirrors s) (answer : Answer) : Follows w (answer, w) (answer, s) :=
  ⟨rfl, h, fun _ => h.grown⟩

/-- A name is bound to a new builder. -/
theorem Mirrors.bindBuilder_carries (h : w.Mirrors s) {w' : Workspace} (target : String)
    {made : BuilderObject} {builder : Builder} (hg : w.Grown w')
    (hn : NewAt w.memory w'.memory made.bindings) (hb : w'.memory.IsBuilder made builder) :
    Carries (fun answer next taken => Follows w (answer, next) taken) w.Grown
      (bindBuilder target made w') (s.bindBuilder target builder) := by
  have hheld := (Memory.built_carries hn.tidy hb).imp (fun _ _ _ h => h) fun _ h => h.2
  have hbuilt := inMemory_carries (w := w') (.holding hheld)
  refine (hbuilt.imp (fun _ _ _ h => h) fun _ => hg.trans).bind ?_
  rintro ⟨seen, object⟩ _ policy ⟨m, rfl, rfl, rfl, hgrows⟩
  have hput := h.put_new (hg.trans (w'.grown_of_grows hgrows)) target hn.new
    (hn.inside.trans_le hgrows.keeps.grown) (.builder (hb.grow hn.inside hgrows)) rfl
  exact .value (follows_of_ok rfl hput rfl)

/-- A name is bound to a new policy. -/
theorem Mirrors.bindPolicy_carries (h : w.Mirrors s) {w' : Workspace} (target : String)
    {made : PolicyObject} {policy : Policy} (hg : w.Grown w')
    (hn : NewAt w.memory w'.memory made.bindings) (hp : w'.memory.IsPolicy made policy) :
    Carries (fun answer next taken => Follows w (answer, next) taken) w.Grown
      (bindPolicy target made w') (.ok (s.bindPolicy target policy)) :=
  .value (follows_of_ok (congrArg Answer.policy hp.policy_eq)
    (h.put_new hg target hn.new hn.inside (.policy hp) rfl) rfl)

/-- A name is bound to a message. -/
theorem Mirrors.bindMessage_carries (h : w.Mirrors s) (target : String) (message : Wire.Message) :
    Carries (fun answer next taken => Follows w (answer, next) taken) w.Grown
      (bindMessage target message w) (.ok (s.bindMessage target message)) :=
  .value (follows_of_ok rfl (h.put_message target message) rfl)

/-- A builder that was changed tells its state. -/
theorem Mirrors.staged_carries {w' : Workspace} {name : String} {changed : Builder}
    (h : w'.Mirrors (s.put name (.builder changed))) :
    Carries (fun answer next taken => Follows w (answer, next) taken) w.Grown
      (EStateM.bind (state name) (fun seen => pure (.staged seen)) w')
      (.ok (.staged changed.build, s.put name (.builder changed))) := by
  have hfind : Session.find (s.put name (.builder changed)).builders name = .ok changed :=
    Session.find_eq_ok_iff.mpr (Table.get?_set_self ..)
  refine (h.state_carries hfind).goOn ?_
  rintro _ w'' ⟨rfl, hg⟩
  exact .value (follows_of_ok rfl (h.grow hg) rfl)

/-- A builder is changed in a way that leaves its bindings where they are. -/
theorem Mirrors.changeBuilder_follows (h : w.Mirrors s) (name : String)
    {etag : Option String → Option String} {version : Int → Int} {change : Builder → Builder}
    (hc : ∀ builder, change builder =
      ⟨builder.bindings, etag builder.etag, version builder.version⟩) :
    Follows w (answered (changeBuilder name etag version w)) (s.changeBuilder name change) := by
  have hchanged : Carries (fun _ w' builder => w'.Mirrors (s.put name (.builder (change builder))))
      w.Grown (onBuilder name (Memory.setFields etag version) w)
      (Session.find s.builders name) := by
    refine (Carries.ofExcept (h.find_builder name) h.grown).andThen ?_
    rintro object w' builder - ⟨rfl, hobject, hb⟩
    refine .value (h.change_builder hobject rfl ?_)
    rw [hc]
    exact ⟨hb.entries, congrArg etag hb.etag, congrArg version hb.version⟩
  refine answered_follows h (hchanged.bind ?_)
  intro _ w' builder hw
  exact hw.staged_carries

/-- Staging bindings comes to the same. -/
theorem Mirrors.setBindings_follows (h : w.Mirrors s) (name : String) (source : BindingsSource)
    (reversed : Bool) :
    Follows w (answered (setBindings name source reversed w))
      (s.setBindings name source reversed) := by
  refine answered_follows h ?_
  refine (Carries.ofExcept (h.find_builder name) h.grown).known.bind ?_
  rintro object w' builder ⟨hfind, rfl, -, -⟩
  have hset : Carries (fun _ next changed => next.Mirrors (s.put name (.builder changed))) w'.Grown
      ((ordered source reversed).bind (fun objects => onBuilder name (Memory.setBindings objects))
        w')
      ((s.ordered source reversed).bind fun entries =>
        Session.defective (builder.setBindings entries)) := by
    refine (h.ordered_carries source reversed).bind ?_
    rintro objects w'' _ ⟨hg, hp, rfl⟩
    have h' := h.grow hg
    have hcall := h'.onBuilder_carries name fun _ _ _ hb =>
      Memory.setBindings_carries h'.tidy hp hb.etag hb.version
    rw [hfind] at hcall
    refine hcall.imp ?_ fun _ => hg.trans
    rintro _ _ changed ⟨⟨object, m⟩, rfl, hn, hb⟩
    exact h'.put_new (w''.grown_of_grows hn.toGrows) name hn.new hn.inside (.builder hb) rfl
  refine hset.settle ?_ ?_
  · intro _ next changed hchanged hnext
    rw [hchanged]
    exact hnext.staged_carries
  · intro failure next hfailed hg
    rw [hfailed]
    refine ((h.grow hg).state_carries hfind).goOn ?_
    rintro _ last ⟨rfl, hg'⟩
    have hgrown := hg.trans hg'
    exact .value ⟨rfl, h.grow hgrown, fun _ => hgrown⟩

/-- Building the policy of a builder comes to the same. -/
theorem Mirrors.build_follows (h : w.Mirrors s) (builder target : String) :
    Follows w (w.step (.build builder target)) (s.step (.build builder target)) := by
  have hbuild : Carries (fun made w' policy => w.Grown w' ∧
      NewAt w.memory w'.memory made.bindings ∧ w'.memory.IsPolicy made policy) w.Grown
      (onBuilder builder Memory.build w)
      ((Session.find s.builders builder).bind fun found => Session.defective found.build) := by
    refine Carries.take (h.find_builder builder) h.grown ?_
    rintro object found ⟨hobject, hb⟩
    refine ((calling_carries hobject (Memory.build_carries h.tidy hb)).adapt _).imp ?_ fun _ h => h
    rintro made _ policy ⟨⟨_, m⟩, rfl, rfl, hn, hp⟩
    exact ⟨grown_of_refused hobject hn.toGrows, hn, hp⟩
  refine answered_follows h ?_
  change Carries _ _ _ ((Session.find s.builders builder).bind fun found =>
    (Session.defective found.build).bind fun policy => .ok (s.bindPolicy target policy))
  rw [← bind_bind]
  refine hbuild.bind ?_
  rintro made w' policy ⟨hg, hn, hp⟩
  exact h.bindPolicy_carries target hg hn hp

/-- A conversion gives its outcome and its records, and leaves the memory behind as it is by
then. -/
theorem converted_eq {α : Type} (conversion : Logger → Action Fault Bench α) (w : Workspace) :
    converted conversion w =
      match conversion w.logger { memory := w.memory } with
      | .ok a bench => .ok (.ok a, bench.records) { w with memory := bench.memory }
      | .error e bench => .ok (.error e, bench.records) { w with memory := bench.memory } := by
  change Action.within (fun workspace => ({ memory := workspace.memory } : Bench))
    (fun bench workspace => { workspace with memory := bench.memory })
    (EStateM.bind (Action.settled (conversion w.logger)) fun result bench =>
      .ok (result, bench.records) bench) w = _
  simp only [Action.within, EStateM.bind, Action.settled]
  cases conversion w.logger { memory := w.memory } <;> rfl

/-- What comes of a conversion and its records are gone on with after it. -/
theorem converted_bind {α β γ δ : Type} {R : α → Bench → β → Prop} {E : Bench → Prop}
    {S : γ → Workspace → δ → Prop} {F : Workspace → Prop} {y : Except Fault β}
    {conversion : Logger → Action Fault Bench α}
    {f : Except Fault α × List Record → Action Failure Workspace γ} {z : Except Failure δ}
    (h : Carries R E (conversion w.logger { memory := w.memory }) y)
    (hok : ∀ a bench b, y = .ok b → R a bench b →
      Carries S F (f (.ok a, bench.records) { w with memory := bench.memory }) z)
    (herror : ∀ e bench, y = .error e → E bench →
      Carries S F (f (.error e, bench.records) { w with memory := bench.memory }) z) :
    Carries S F (EStateM.bind (converted conversion) f w) z := by
  rw [EStateM.bind, converted_eq]
  generalize conversion w.logger { memory := w.memory } = outcome at h ⊢
  cases h with
  | value related => exact hok _ _ _ rfl related
  | error e left => exact herror _ _ rfl left

/-- Decoding comes to the same. -/
theorem Mirrors.decode_follows (h : w.Mirrors s) (message target : String) (parse : Parse) :
    Follows w (answered (decode message target parse w)) (s.decode message target parse) := by
  refine answered_follows h ?_
  refine Carries.take (h.find_message message) h.grown ?_
  rintro current _ rfl
  have hdecode := Memory.decode_carries h.tidy w.logger parse current
  rw [h.logger] at hdecode
  generalize s.logger.shown (Conversion.decode parse current) = shown at hdecode ⊢
  obtain ⟨result, records⟩ := shown
  refine converted_bind (by rw [h.logger]; exact hdecode) ?_ ?_
  · rintro made ⟨m, told⟩ policy rfl ⟨rfl, hn, hp⟩
    have hput := h.put_new (w.grown_of_grows hn.toGrows) target hn.new hn.inside (.policy hp) rfl
    have hanswer : (⟨.ok (m.policy made), told⟩ : Shown Policy) = ⟨.ok policy, told⟩ := by
      rw [hp.policy_eq]
    exact .value (follows_of_ok (congrArg Answer.decoded hanswer) hput rfl)
  · rintro fault ⟨m, told⟩ rfl ⟨rfl, hg⟩
    have hgrown := w.grown_of_grows hg
    exact .value ⟨rfl, h.grow hgrown, fun _ => hgrown⟩

/-- Encoding comes to the same. -/
theorem Mirrors.encode_follows (h : w.Mirrors s) (policy target : String) (format : Format)
    (listing : Listing) :
    Follows w (answered (encode policy target format listing w))
      (s.encode policy target format listing) := by
  refine answered_follows h ?_
  refine Carries.take (h.find_policy policy) h.grown ?_
  rintro object current ⟨-, hp⟩
  have hencode := Memory.encode_carries (m := w.memory) w.logger format listing object
  rw [hp.policy_eq, h.logger] at hencode
  generalize s.logger.shown (Conversion.encode format current listing) = shown at hencode ⊢
  obtain ⟨result, records⟩ := shown
  refine converted_bind (by rw [h.logger]; exact hencode) ?_ ?_
  · rintro message _ _ rfl ⟨rfl, rfl⟩
    exact .value (follows_of_ok rfl (h.put_message target message) rfl)
  · rintro fault _ rfl rfl
    exact .value (h.look _)

/-- Turning logging on or off comes to the same. -/
theorem Mirrors.set_logging (h : w.Mirrors s) (on : Bool) :
    { w with logging := on }.Mirrors { s with logging := on } := by
  have hobject (name : Name) : { w with logging := on }.object? name = w.object? name := by
    cases name <;> rfl
  have hthing (name : Name) : { s with logging := on }.thing? name = s.thing? name := by
    cases name <;> rfl
  have hlogger : ({ w with logging := on } : Workspace).logger = { s with logging := on }.logger :=
    congrArg (Logger.mk on) (congrArg Logger.digits h.logger)
  refine ⟨hlogger, fun name => ?_, h.tidy, fun hf hp => ?_, fun hone hother hp hp' => ?_⟩
  · rw [hobject, hthing]
    exact h.things name
  · rw [hobject] at hf
    exact h.inside hf hp
  · rw [hobject] at hone hother
    exact h.alone hone hother hp hp'

/-- Each step comes to the same in a workspace and in the session that it mirrors. -/
theorem Mirrors.step (h : w.Mirrors s) (step : Step) : Follows w (w.step step) (s.step step) := by
  cases step with
  | logging on => exact follows_of_ok rfl (h.set_logging on) rfl
  | newBuilder target =>
    obtain ⟨hn, hb⟩ := Memory.newBuilder_spec h.tidy
    exact answered_follows h (h.bindBuilder_carries target (w.grown_of_grows hn.toGrows) hn hb)
  | setBindings builder source reversed => exact h.setBindings_follows builder source reversed
  | setEtag builder etag => exact h.changeBuilder_follows builder fun _ => rfl
  | setVersion builder version => exact h.changeBuilder_follows builder fun _ => rfl
  | build builder target =>
    exact h.build_follows builder target
  | toBuilder policy target =>
    refine answered_follows h (Carries.take (h.find_policy policy) h.grown ?_)
    rintro object current ⟨hobject, hp⟩
    have hmake := Memory.toBuilder_carries h.tidy (h.inside hobject rfl) hp
    refine (inMemory_carries hmake).bind ?_
    rintro made _ builder ⟨m, rfl, hn, hb⟩
    exact h.bindBuilder_carries target (w.grown_of_grows hn.toGrows) hn hb
  | get policy =>
    refine answered_follows h (Carries.take (h.policy_matches policy) h.grown ?_)
    rintro current _ rfl
    exact .value (h.look _)
  | construct target source etag version =>
    refine answered_follows h ((h.sequence_carries source).bind ?_)
    rintro objects w' _ ⟨hg, hp, rfl⟩
    have hmake := Memory.construct_carries hg.memory.tidy hp etag version
    refine ((inMemory_carries hmake).imp (fun _ _ _ h => h) fun _ => hg.trans).bind ?_
    rintro made _ policy ⟨m, rfl, hn, his⟩
    exact h.bindPolicy_carries target (hg.trans (w'.grown_of_grows hn.toGrows))
      (hn.after hg.memory) his
  | assign policy field =>
    refine answered_follows h (Carries.take (h.policy_matches policy) h.grown ?_)
    rintro current _ rfl
    exact .value (h.look _)
  | compare left right =>
    refine answered_follows h (Carries.take (h.policy_matches left) h.grown ?_)
    rintro first _ rfl
    refine Carries.take (h.policy_matches right) h.grown ?_
    rintro second _ rfl
    exact .value (h.look _)
  | distinct policies =>
    have hall : Matches Eq (policies.mapM w.policy)
        (policies.mapM (Session.find s.policies)) := by
      rw [funext h.policy_eq]
      exact .refl _
    refine answered_follows h (Carries.take hall h.grown ?_)
    rintro found _ rfl
    exact .value (h.look _)
  | newList target entries =>
    refine answered_follows h (Carries.take (.refl _) h.grown ?_)
    rintro resolved _ rfl
    have hmade := Memory.made_objects false w.memory resolved
    have hn := hmade.newAt h.tidy
    have hput := h.put_new (w.grown_of_grows hn.toGrows) target hn.new hn.inside
      (.list (Memory.isList_newSequence hmade)) rfl
    exact .value (follows_of_ok (congrArg Answer.size hmade.length_eq) hput rfl)
  | listAppend list entry =>
    refine answered_follows h (Carries.take (h.find_list list) h.grown ?_)
    rintro place entries ⟨hobject, hl⟩
    refine Carries.take (.refl _) h.grown ?_
    rintro resolved _ rfl
    have hmade := Memory.made_objects false w.memory [resolved]
    obtain ⟨hc, hl'⟩ := Memory.append_spec h.tidy (h.inside hobject rfl) hl hmade
    have hlength : ((w.memory.objects false [resolved]).2.sequence place ++
        (w.memory.objects false [resolved]).1).length = (entries ++ [resolved]).length := by
      rw [List.length_append, List.length_append, hmade.length_eq, hmade.sequence_eq, ← hl.entries,
        Memory.entries, Memory.length_values]
    exact .value (follows_of_ok (congrArg Answer.size hlength) (h.change_list hobject hc hl') rfl)
  | listAdd list index identity =>
    refine answered_follows h (Carries.take (h.find_list list) h.grown ?_)
    rintro place entries ⟨hobject, hl⟩
    refine Carries.take (.refl _) h.grown ?_
    rintro resolved _ rfl
    have hadd := (Memory.addIdentity_carries h.tidy hl index resolved).imp (F := Grows w.memory)
      (fun _ _ _ h => h) fun _ heq => heq ▸ h.tidy.grows
    refine (inMemory_carries hadd).bind ?_
    rintro larger _ changed ⟨m, rfl, rfl, hc, hl'⟩
    exact .value (follows_of_ok rfl (h.change_list hobject hc hl') rfl)
  | listClear list =>
    refine answered_follows h (Carries.take (h.find_list list) h.grown ?_)
    rintro place entries ⟨hobject, hl⟩
    obtain ⟨hc, hl'⟩ := Memory.clear_spec h.tidy (h.inside hobject rfl)
    exact .value (follows_of_ok rfl (h.change_list hobject hc hl') rfl)
  | validate target document =>
    refine answered_follows h (Carries.take (.refl _) h.grown ?_)
    rintro message _ rfl
    exact h.bindMessage_carries target message
  | read target payload =>
    refine answered_follows h (Carries.take (.refl _) h.grown ?_)
    rintro message _ rfl
    exact h.bindMessage_carries target message
  | write message =>
    refine answered_follows h (Carries.take (h.find_message message) h.grown ?_)
    rintro current _ rfl
    exact .value (h.look _)
  | messageVersion message version =>
    refine answered_follows h (Carries.take (h.find_message message) h.grown ?_)
    rintro current _ rfl
    exact h.bindMessage_carries message { current with version }
  | messageEtag message etag =>
    refine answered_follows h (Carries.take (h.find_message message) h.grown ?_)
    rintro current _ rfl
    exact h.bindMessage_carries message { current with etag }
  | messageAppend message binding condition =>
    refine answered_follows h (Carries.take (h.find_message message) h.grown ?_)
    rintro current _ rfl
    refine Carries.take (.refl _) h.grown ?_
    rintro made _ rfl
    exact h.bindMessage_carries message { current with bindings := current.bindings ++ [made] }
  | messageCompare left right =>
    refine answered_follows h (Carries.take (h.find_message left) h.grown ?_)
    rintro first _ rfl
    refine Carries.take (h.find_message right) h.grown ?_
    rintro second _ rfl
    exact .value (h.look _)
  | decode message target parse => exact h.decode_follows message target parse
  | encode policy target format listing => exact h.encode_follows policy target format listing

/-- A run takes its first step and then the others. -/
theorem run_cons (workspace : Workspace) (step : Step) (rest : List Step) :
    workspace.run (step :: rest) =
      ((workspace.step step).1 :: ((workspace.step step).2.run rest).1,
        ((workspace.step step).2.run rest).2) :=
  rfl

/-- Any steps have the same answers in a workspace and in the session that it mirrors. -/
theorem Mirrors.run (h : w.Mirrors s) (steps : List Step) :
    (w.run steps).1 = (s.run steps).1 ∧ (w.run steps).2.Mirrors (s.run steps).2 := by
  induction steps generalizing w s with
  | nil => exact ⟨rfl, h⟩
  | cons step rest ih =>
    have hstep := h.step step
    obtain ⟨hanswers, hlast⟩ := ih hstep.mirrors
    exact ⟨congrArg₂ List.cons hstep.answer hanswers, hlast⟩

end AccessPolicy.Workspace
