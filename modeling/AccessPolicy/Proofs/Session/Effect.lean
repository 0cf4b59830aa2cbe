import AccessPolicy.Proofs.Conversion.Decoding
import AccessPolicy.Proofs.Conversion.Records
import AccessPolicy.Session.Run

/-!
# What a step does

A step changes what at most one name stands for, and only if it succeeds. Which name that is can be
told from the step and its answer, and what the name stands for from then on is complete if
everything was complete before.
-/

namespace AccessPolicy

/-- A name of a session. Names of different kinds do not get into each other's way. -/
inductive Name where
  | builder (name : String)
  | policy (name : String)
  | list (name : String)
  | message (name : String)
  deriving DecidableEq, Repr

/-- What a name can stand for. -/
inductive Thing where
  | builder (builder : Builder)
  | policy (policy : Policy)
  | list (entries : List (Option Binding))
  | message (message : Wire.Message)

/-- The name under which a thing goes. -/
def Thing.called (name : String) : Thing → Name
  | .builder _ => .builder name
  | .policy _ => .policy name
  | .list _ => .list name
  | .message _ => .message name

/-- Whether nothing is missing in a policy or in what is staged in a builder. Lists and messages
may be as they like. -/
def Thing.IsComplete : Thing → Prop
  | .builder staged => staged.IsComplete
  | .policy built => built.IsComplete
  | .list _ => True
  | .message _ => True

/-- The name that a step with this answer lets stand for something else. A step that fails has
none, and neither has one that only looks. -/
def Step.written? : Step → Answer → Option Name
  | .newBuilder target, .policy _ => some (.builder target)
  | .setBindings builder _ _, .staged _ => some (.builder builder)
  | .setEtag builder _, .staged _ => some (.builder builder)
  | .setVersion builder _, .staged _ => some (.builder builder)
  | .build _ target, .policy _ => some (.policy target)
  | .toBuilder _ target, .policy _ => some (.builder target)
  | .construct target _ _ _, .policy _ => some (.policy target)
  | .newList target _, .size _ => some (.list target)
  | .listAppend list _, .size _ => some (.list list)
  | .listAdd list _ _, .size _ => some (.list list)
  | .listClear list, .size _ => some (.list list)
  | .validate target _, .message _ => some (.message target)
  | .read target _, .message _ => some (.message target)
  | .messageVersion message _, .message _ => some (.message message)
  | .messageEtag message _, .message _ => some (.message message)
  | .messageAppend message _ _, .message _ => some (.message message)
  | .decode _ target _, .decoded ⟨.ok _, _⟩ => some (.policy target)
  | .encode _ target _ _, .encoded ⟨.ok _, _⟩ => some (.message target)
  | _, _ => none

/-- Whether an answer tells that the step failed. -/
def Answer.isError : Answer → Bool
  | .failed _ => true
  | .refused _ _ => true
  | .decoded outcome => !outcome.result.isOk
  | .encoded outcome => !outcome.result.isOk
  | _ => false

/-- The policy that an answer tells, not counting what a builder would build. -/
def Answer.policy? : Answer → Option Policy
  | .policy told => some told
  | .decoded outcome => outcome.result.toOption
  | _ => none

/-- Decoding lets the target stand for something else exactly when it has a result. -/
theorem Step.written?_decode (message target : String) (parse : Parse) (outcome : Shown Policy) :
    (decode message target parse).written? (.decoded outcome) =
      match outcome.result with
      | .ok _ => some (.policy target)
      | .error _ => none := by
  obtain ⟨_ | _, _⟩ := outcome <;> rfl

/-- Encoding lets the target stand for something else exactly when it has a result. -/
theorem Step.written?_encode (policy target : String) (format : Format) (listing : Listing)
    (outcome : Shown Wire.Message) :
    (encode policy target format listing).written? (.encoded outcome) =
      match outcome.result with
      | .ok _ => some (.message target)
      | .error _ => none := by
  obtain ⟨_ | _, _⟩ := outcome <;> rfl

namespace Session

/-- What a name stands for. -/
def thing? (session : Session) : Name → Option Thing
  | .builder name => (session.builders.get? name).map .builder
  | .policy name => (session.policies.get? name).map .policy
  | .list name => (session.lists.get? name).map .list
  | .message name => (session.messages.get? name).map .message

/-- Lets a name stand for a thing. -/
def put (session : Session) (name : String) : Thing → Session
  | .builder builder => { session with builders := session.builders.set name builder }
  | .policy policy => { session with policies := session.policies.set name policy }
  | .list entries => { session with lists := session.lists.set name entries }
  | .message message => { session with messages := session.messages.set name message }

/-- A name stands for the thing it was set to, and all other names for what they stood for. -/
theorem thing?_put (session : Session) (name : String) (thing : Thing) (other : Name) :
    (session.put name thing).thing? other =
      if other = thing.called name then some thing else session.thing? other := by
  cases thing <;> cases other <;>
    simp only [put, thing?, Thing.called, Table.get?_set, Name.builder.injEq, Name.policy.injEq,
      Name.list.injEq, Name.message.injEq, reduceCtorEq, if_false] <;>
    split <;> rfl

/-- Whether all policies and all that is staged in builders is complete. -/
def IsComplete (session : Session) : Prop :=
  ∀ name thing, session.thing? name = some thing → thing.IsComplete

/-- What a step can do to a session. -/
inductive Effect (session : Session) (step : Step) : Answer → Session → Prop where
  /-- It leaves the session as it is. -/
  | nothing {answer : Answer} (written : step.written? answer = none) :
      Effect session step answer session
  /-- It turns logging on or off. -/
  | logging {on : Bool} (step_eq : step = .logging on) :
      Effect session step .done { session with logging := on }
  /-- It lets the name that is written stand for a thing. If this is a policy, the answer tells it. -/
  | write (name : String) (thing : Thing) {answer : Answer}
      (written : step.written? answer = some (thing.called name))
      (complete : session.IsComplete → thing.IsComplete)
      (told : ∀ policy, thing = .policy policy → answer.policy? = some policy) :
      Effect session step answer (session.put name thing)

/-- A name that is found stands for what is found. -/
theorem find_eq_ok_iff {α : Type} {table : Table α} {name : String} {value : α} :
    find table name = .ok value ↔ table.get? name = some value := by
  rw [find]
  cases table.get? name with
  | none => simp only [reduceCtorEq]
  | some found => simp only [Except.ok.injEq, Option.some.injEq]

/-- What a step can do leaves every name alone that it does not write. -/
theorem Effect.frame {session next : Session} {step : Step} {answer : Answer}
    (h : Effect session step answer next) {name : Name} (hw : step.written? answer ≠ some name) :
    next.thing? name = session.thing? name := by
  cases h with
  | nothing _ => rfl
  | logging _ => cases name <;> rfl
  | write target thing hwritten _ _ =>
    rw [thing?_put, if_neg fun heq => hw (hwritten.trans (congrArg some heq.symm))]

/-- The answer tells what the name of a policy stands for after it was written. -/
theorem Effect.policy_of_written {session next : Session} {step : Step} {answer : Answer}
    (h : Effect session step answer next) {name : String}
    (hw : step.written? answer = some (.policy name)) :
    ∃ policy, answer.policy? = some policy ∧ next.thing? (.policy name) = some (.policy policy) := by
  cases h with
  | nothing hwritten =>
    rw [hwritten] at hw
    cases hw
  | logging hstep =>
    rw [hstep] at hw
    cases hw
  | write target thing hwritten _ htold =>
    have hcalled : Name.policy name = thing.called target :=
      Option.some.inj (hw.symm.trans hwritten)
    cases thing with
    | policy policy => exact ⟨policy, htold policy rfl, by rw [thing?_put, if_pos hcalled]⟩
    | builder _ => cases hcalled
    | list _ => cases hcalled
    | message _ => cases hcalled

/-- A failed step writes nothing. -/
theorem written?_failed (step : Step) (failure : Failure) :
    step.written? (.failed failure) = none := by
  cases step <;> rfl

/-- Whether all that a computation can give is something that a step can do. -/
def Does (session : Session) (step : Step) (result : Except Failure Result) : Prop :=
  ∀ taken, result = .ok taken → Effect session step taken.1 taken.2

/-- A computation that gives one thing does this. -/
theorem Does.ok {session next : Session} {step : Step} {answer : Answer}
    (h : Effect session step answer next) : Does session step (.ok (answer, next)) := by
  rintro taken ⟨⟩
  exact h

/-- A computation goes on with what its first part gives. -/
theorem Does.bind {α : Type} {session : Session} {step : Step} {first : Except Failure α}
    {rest : α → Except Failure Result}
    (h : ∀ value, first = .ok value → Does session step (rest value)) :
    Does session step (first.bind rest) := by
  intro taken ht
  obtain ⟨value, hf, hr⟩ := bind_eq_ok_iff.mp ht
  exact h value hf taken hr

/-- An attempt does what its computation does, since failing does nothing. -/
theorem Does.attempt {session : Session} {step : Step} {result : Except Failure Result}
    (h : Does session step result) :
    Effect session step (session.attempt result).1 (session.attempt result).2 := by
  cases result with
  | error failure => exact .nothing (written?_failed step failure)
  | ok taken => exact h taken rfl

/-- What passes the check in a session passes it anywhere. -/
theorem defective_eq_ok_iff {α : Type} {checked : Except Defect α} {value : α} :
    defective checked = .ok value ↔ checked = .ok value :=
  mapError_eq_ok_iff

/-- Binding a name to a builder writes this name, and only if the builder is complete. -/
theorem does_bindBuilder (session : Session) {step : Step} {target : String} (builder : Builder)
    (hw : ∀ policy, step.written? (.policy policy) = some (.builder target)) :
    Does session step (session.bindBuilder target builder) := by
  refine .bind fun policy hb => .ok (.write target (.builder builder) (hw policy) (fun _ => ?_) nofun)
  exact (Builder.build_eq_ok_iff.mp (defective_eq_ok_iff.mp hb)).1

/-- Binding a name to a policy that was put together writes this name. -/
theorem does_bindPolicy (session : Session) {step : Step} {target : String}
    {entries : Option (List (Option Binding))} {etag : Option String} {version : Int}
    {policy : Policy} (hp : Policy.construct entries etag version = .ok policy)
    (hw : step.written? (.policy policy) = some (.policy target)) :
    Does session step (.ok (session.bindPolicy target policy)) := by
  obtain ⟨_, hc, _⟩ := Policy.construct_eq_ok_iff.mp hp
  exact .ok (.write target (.policy policy) hw (fun _ => hc) fun _ heq => by cases heq; rfl)

/-- Binding a name to a list writes this name. -/
theorem does_bindList (session : Session) {step : Step} {target : String} (size : Nat)
    (entries : List (Option Binding)) (hw : step.written? (.size size) = some (.list target)) :
    Does session step (.ok (session.bindList target size entries)) :=
  .ok (.write target (.list entries) hw (fun _ => trivial) nofun)

/-- Binding a name to a message writes this name. -/
theorem does_bindMessage (session : Session) {step : Step} {target : String}
    (message : Wire.Message) (hw : step.written? (.message message) = some (.message target)) :
    Does session step (.ok (session.bindMessage target message)) :=
  .ok (.write target (.message message) hw (fun _ => trivial) nofun)

/-- Changing a builder writes its name, and what is staged stays complete if the change keeps it
so. -/
theorem effect_changeBuilder (session : Session) {step : Step} {name : String}
    {change : Builder → Builder} (hc : ∀ builder, builder.IsComplete → (change builder).IsComplete)
    (hw : ∀ state, step.written? (.staged state) = some (.builder name)) :
    Effect session step (session.changeBuilder name change).1
      (session.changeBuilder name change).2 := by
  refine Does.attempt (.bind fun current hf => .ok ?_)
  refine .write name (.builder (change current)) (hw _) (fun hs => hc current ?_) nofun
  exact hs (.builder name) (.builder current) (by rw [thing?, find_eq_ok_iff.mp hf]; rfl)

/-- Staging bindings writes the name of the builder if they are complete, else it does nothing. -/
theorem effect_setBindings (session : Session) (name : String) (source : BindingsSource)
    (reversed : Bool) :
    Effect session (.setBindings name source reversed)
      (session.setBindings name source reversed).1
      (session.setBindings name source reversed).2 := by
  refine Does.attempt (.bind fun current _ => ?_)
  split
  · exact .ok (.nothing rfl)
  · rename_i changed hs
    obtain ⟨entries, _, hs⟩ := bind_eq_ok_iff.mp hs
    obtain ⟨_, hc, _⟩ := Builder.setBindings_eq_ok_iff.mp (defective_eq_ok_iff.mp hs)
    exact .ok (.write name (.builder changed) rfl (fun _ => hc) nofun)

/-- Decoding writes the name of the target if a policy is seen, else it does nothing. -/
theorem effect_decode (session : Session) (message target : String) (parse : Parse) :
    Effect session (.decode message target parse) (session.decode message target parse).1
      (session.decode message target parse).2 := by
  refine Does.attempt (.bind fun current _ => ?_)
  simp only
  split
  · rename_i fault hd
    exact .ok (.nothing (by rw [Step.written?_decode, hd]))
  · rename_i policy hd
    obtain ⟨_, hc, _⟩ := Conversion.decode_eq_ok_iff.mp (Logger.result_of_shown hd)
    refine .ok (.write target (.policy policy) ?_ (fun _ => hc) fun _ heq => ?_)
    · rw [Step.written?_decode, hd]
      rfl
    · cases heq
      rw [Answer.policy?, hd]
      rfl

/-- Encoding writes the name of the target if a message is seen, else it does nothing. -/
theorem effect_encode (session : Session) (policy target : String) (format : Format)
    (listing : Listing) :
    Effect session (.encode policy target format listing)
      (session.encode policy target format listing).1
      (session.encode policy target format listing).2 := by
  refine Does.attempt (.bind fun current _ => ?_)
  simp only
  split
  · rename_i fault hd
    exact .ok (.nothing (by rw [Step.written?_encode, hd]))
  · rename_i message hd
    refine .ok (.write target (.message message) ?_ (fun _ => trivial) nofun)
    rw [Step.written?_encode, hd]
    rfl

/-- A step does one of the things that a step can do. -/
theorem step_effect (session : Session) (step : Step) :
    Effect session step (session.step step).1 (session.step step).2 := by
  cases step with
  | logging on => exact .logging rfl
  | newBuilder target => exact (session.does_bindBuilder {} fun _ => rfl).attempt
  | setBindings builder source reversed => exact session.effect_setBindings builder source reversed
  | setEtag builder etag => exact session.effect_changeBuilder (fun _ hc => hc) fun _ => rfl
  | setVersion builder version => exact session.effect_changeBuilder (fun _ hc => hc) fun _ => rfl
  | build builder target =>
    refine Does.attempt (.bind fun current _ => .bind fun policy hb => ?_)
    exact session.does_bindPolicy (defective_eq_ok_iff.mp hb) rfl
  | toBuilder policy target =>
    refine Does.attempt (.bind fun current _ => .bind fun builder _ => ?_)
    exact session.does_bindBuilder builder fun _ => rfl
  | get policy => exact Does.attempt (.bind fun _ _ => .ok (.nothing rfl))
  | construct target source etag version =>
    refine Does.attempt (.bind fun entries _ => .bind fun policy hp => ?_)
    exact session.does_bindPolicy (defective_eq_ok_iff.mp hp) rfl
  | assign policy field => exact Does.attempt (.bind fun _ _ => .ok (.nothing rfl))
  | compare left right =>
    exact Does.attempt (.bind fun _ _ => .bind fun _ _ => .ok (.nothing rfl))
  | distinct policies => exact Does.attempt (.bind fun _ _ => .ok (.nothing rfl))
  | newList target entries =>
    exact Does.attempt (.bind fun made _ => session.does_bindList made.length made rfl)
  | listAppend list entry =>
    exact Does.attempt (.bind fun _ _ => .bind fun _ _ => session.does_bindList _ _ rfl)
  | listAdd list index identity =>
    refine Does.attempt (.bind fun _ _ => .bind fun _ _ => .bind fun _ _ => ?_)
    exact session.does_bindList _ _ rfl
  | listClear list => exact Does.attempt (.bind fun _ _ => session.does_bindList 0 [] rfl)
  | validate target document =>
    exact Does.attempt (.bind fun message _ => session.does_bindMessage message rfl)
  | read target payload =>
    exact Does.attempt (.bind fun message _ => session.does_bindMessage message rfl)
  | write message => exact Does.attempt (.bind fun _ _ => .ok (.nothing rfl))
  | messageVersion message version =>
    exact Does.attempt (.bind fun current _ => session.does_bindMessage { current with version } rfl)
  | messageEtag message etag =>
    exact Does.attempt (.bind fun current _ => session.does_bindMessage { current with etag } rfl)
  | messageAppend message binding condition =>
    exact Does.attempt (.bind fun _ _ => .bind fun _ _ => session.does_bindMessage _ rfl)
  | messageCompare left right =>
    exact Does.attempt (.bind fun _ _ => .bind fun _ _ => .ok (.nothing rfl))
  | decode message target parse => exact session.effect_decode message target parse
  | encode policy target format listing =>
    exact session.effect_encode policy target format listing

/-- A run takes its first step and then the others. -/
theorem run_cons (session : Session) (step : Step) (rest : List Step) :
    session.run (step :: rest) =
      ((session.step step).1 :: ((session.step step).2.run rest).1,
        ((session.step step).2.run rest).2) :=
  rfl

/-- The answers to some steps and then others are the answers to these and then to those. -/
theorem answers_run_append (session : Session) (before after : List Step) :
    (session.run (before ++ after)).1 =
      (session.run before).1 ++ ((session.run before).2.run after).1 := by
  induction before generalizing session with
  | nil => rfl
  | cons step rest ih => exact congrArg _ (ih (session.step step).2)

/-- There is one answer to each step. -/
theorem length_answers_run (session : Session) (steps : List Step) :
    (session.run steps).1.length = steps.length := by
  induction steps generalizing session with
  | nil => rfl
  | cons step rest ih => rw [run_cons, List.length_cons, List.length_cons, ih]

/-- A step is answered in the session to which the steps before it lead. -/
theorem answer_run (session : Session) (before : List Step) (step : Step) (after : List Step) :
    (session.run (before ++ step :: after)).1[before.length]? =
      some ((session.run before).2.step step).1 := by
  rw [answers_run_append, List.getElem?_append_right (by rw [length_answers_run]),
    length_answers_run, Nat.sub_self, run_cons, List.getElem?_cons_zero]

end Session

end AccessPolicy
