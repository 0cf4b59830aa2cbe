import AccessPolicy.Proofs.Memory.Isolation
import AccessPolicy.Proofs.Session.Logging

/-!
# Logging leaves no trace in memory

Turning logging on or off leaves the objects alone. So two sessions that differ in nothing else
give the same answers, but for the records, and end with the same objects under the same names, as
long as all records can be made. What a conversion tells of its records depends on the last time
that logging was turned on or off before it.
-/

namespace AccessPolicy

/-! ## Conversions without logging -/

/-- Whether what a conversion comes to without logging is what it comes to with it but for the
records, unless one of these cannot be made. -/
inductive Muted {α : Type} (records : List Record) :
    EStateM.Result Fault Bench α → EStateM.Result Fault Bench α → Prop where
  | value (a : α) (bench : Bench) : Muted records (.ok a bench) (.ok a { bench with records })
  | error (e : Fault) (bench : Bench) :
      Muted records (.error e bench) (.error e { bench with records })
  | unwritable (most : Nat) (bench : Bench) (muted : EStateM.Result Fault Bench α) :
      Muted records (.error (.unwritable most) bench) muted

namespace Muted

variable {α β : Type} {records : List Record} {bench bench' : Bench}

/-- Conversions one after another are the same without logging if each of them is. -/
theorem bind {x y : Action Fault Bench α} {f g : α → Action Fault Bench β}
    (h : Muted records (x bench) (y bench'))
    (hf : ∀ a bench, Muted records (f a bench) (g a { bench with records })) :
    Muted records (x.bind f bench) (y.bind g bench') := by
  rw [EStateM.bind, EStateM.bind]
  generalize x bench = outcome at h ⊢
  generalize y bench' = outcome' at h ⊢
  cases h with
  | value a bench => exact hf a bench
  | error e bench => exact .error e bench
  | unwritable most bench _ => exact .unwritable most bench _

/-- Work on the memory is the same without logging. -/
theorem inMemory {ε : Type} (fault : ε → Fault) (action : Action ε Memory α) :
    Muted records (Bench.inMemory fault action bench)
      (Bench.inMemory fault action { bench with records }) := by
  have hmuted (bench : Bench) : Bench.inMemory fault action bench =
      match action bench.memory with
      | .ok a memory => .ok a { bench with memory }
      | .error e memory => .error (fault e) { bench with memory } := by
    simp only [Bench.inMemory, EStateM.adaptExcept, Action.within]
    cases action bench.memory <;> rfl
  rw [hmuted, hmuted]
  cases action bench.memory with
  | ok a memory => exact .value a _
  | error e memory => exact .error _ _

/-- An outcome that is taken over is the same without logging. -/
theorem ofExcept (outcome : Except Fault α) :
    Muted records ((MonadExcept.ofExcept outcome : Action Fault Bench α) bench)
      ((MonadExcept.ofExcept outcome : Action Fault Bench α) { bench with records }) := by
  cases outcome with
  | ok a => exact .value a bench
  | error e => exact .error e bench

/-- Without logging no record is made. -/
theorem tell (logger : Logger) (entry : Entry) :
    Muted records (Bench.tell logger entry bench)
      (Bench.tell { logger with on := false } entry { bench with records }) := by
  unfold Bench.tell
  simp only [Bool.false_eq_true, if_false]
  cases logger.on with
  | false => exact .value () bench
  | true =>
    rw [if_pos rfl]
    cases hrecord : entry.record logger.digits with
    | ok record => exact .value () { bench with records := bench.records ++ [record] }
    | error fault =>
      obtain ⟨most, rfl⟩ := entry.exists_unwritable_of_record hrecord
      exact .unwritable most bench _

/-- Decoding is the same without logging. -/
theorem decode (logger : Logger) (parse : Parse) (message : Wire.Message) :
    Muted records (Memory.decode logger parse message bench)
      (Memory.decode { logger with on := false } parse message { bench with records }) := by
  unfold Memory.decode
  refine (inMemory _ _).bind fun objects bench => ?_
  exact (tell logger _).bind fun _ bench => inMemory _ _

/-- Encoding bindings is the same without logging. -/
theorem encodeBindings (logger : Logger) (format : Format) (listing : Listing)
    (objects : List (Option BindingObject)) :
    Muted records (Memory.encodeBindings logger format listing objects bench)
      (Memory.encodeBindings { logger with on := false } format listing objects
        { bench with records }) := by
  induction objects generalizing bench with
  | nil => exact .value [] bench
  | cons entry rest ih =>
    cases entry with
    | none => exact ih
    | some object =>
      have hwarn : Muted records (Bench.warn logger (bench.memory.binding object) bench)
          (Bench.warn { logger with on := false } (bench.memory.binding object)
            { bench with records }) := by
        rw [Bench.warn, Bench.warn]
        split
        · exact tell logger _
        · exact .value () bench
      refine hwarn.bind fun _ bench => (ofExcept _).bind fun wire bench => ?_
      exact ih.bind fun others bench => .value (wire :: others) bench

/-- Encoding is the same without logging. -/
theorem encode (logger : Logger) (format : Format) (listing : Listing) (policy : PolicyObject) :
    Muted records (Memory.encode logger format listing policy bench)
      (Memory.encode { logger with on := false } format listing policy { bench with records }) := by
  refine (encodeBindings logger format listing _).bind fun bindings bench => ?_
  refine (ofExcept _).bind fun etag bench => ?_
  refine (tell logger _).bind fun _ bench => ?_
  exact .value (Wire.Message.mk policy.version bindings etag) bench

end Muted

/-- Whether a step is a conversion. -/
def Step.isConversion : Step → Bool
  | .decode _ _ _ => true
  | .encode _ _ _ _ => true
  | _ => false

namespace Workspace

/-! ## Steps without logging -/

/-- A workspace in which logging is off, and which is otherwise the same. -/
def silent (workspace : Workspace) : Workspace := { workspace with logging := false }

variable {α β ε σ : Type}

/-- What comes of an action, with a quiet value and with logging turned off in the workspace. -/
def silenced (quiet : α → α) : EStateM.Result ε Workspace α → EStateM.Result ε Workspace α
  | .ok a workspace => .ok (quiet a) workspace.silent
  | .error e workspace => .error e workspace.silent

/-- Whether it makes no difference to an action whether logging is on, but for what is not quiet
about its value. -/
def Unaware (quiet : α → α) (action : Action ε Workspace α) : Prop :=
  ∀ w, action w.silent = silenced quiet (action w)

namespace Unaware

variable {quiet : β → β} {action : Action ε Workspace α} {f : α → Action ε Workspace β}

theorem bind (h : Unaware id action) (hf : ∀ a, Unaware quiet (f a)) :
    Unaware quiet (action >>= f) := by
  intro w
  simp only [Bind.bind, EStateM.bind, h w]
  cases action w with
  | ok a w' => exact hf a w'
  | error e w' => rfl

theorem pure {b : β} (h : quiet b = b) : Unaware quiet (Pure.pure b : Action ε Workspace β) :=
  fun w => congrArg (EStateM.Result.ok · w.silent) h.symm

theorem ofExcept (outcome : Except ε α) :
    Unaware id (MonadExcept.ofExcept outcome : Action ε Workspace α) := by
  intro w
  cases outcome <;> rfl

/-- Looking at anything but whether logging is on makes no difference. -/
theorem look {f : Workspace → Action ε Workspace β} (hf : ∀ w : Workspace, f w.silent = f w)
    (h : ∀ w, Unaware quiet (f w)) : Unaware quiet (get >>= f) :=
  fun w => (congrFun (hf w) _).trans (h w w)

/-- Neither does changing anything else. -/
theorem change {f : Workspace → Workspace} (h : ∀ w : Workspace, f w.silent = (f w).silent) :
    Unaware id (modify f : Action ε Workspace Unit) :=
  fun w => congrArg (EStateM.Result.ok ()) (h w)

theorem make (maker : Memory → α × Memory) : Unaware id (make maker) := fun _ => rfl

/-- Neither does working on a part that is not concerned. -/
theorem within {part : Workspace → σ} {put : σ → Workspace → Workspace} (action : Action ε σ α)
    (hpart : ∀ w : Workspace, part w.silent = part w)
    (hput : ∀ state (w : Workspace), put state w.silent = (put state w).silent) :
    Unaware id (Action.within part put action) := by
  intro w
  rw [Action.within, Action.within, hpart]
  cases action (part w) with
  | ok a state => exact congrArg _ (hput state w)
  | error e state => exact congrArg _ (hput state w)

theorem adapt {ε' : Type} (h : Unaware id action) (f : ε → ε') :
    Unaware id (action.adaptExcept f) := by
  intro w
  rw [EStateM.adaptExcept, EStateM.adaptExcept, h]
  cases action w <;> rfl

theorem settled {ε' : Type} (h : Unaware id action) :
    Unaware id (action.settled : Action ε' Workspace (Except ε α)) := by
  intro w
  rw [Action.settled, Action.settled, h]
  cases action w <;> rfl

/-- Finding what a name stands for does not depend on logging. -/
theorem find {table : Workspace → Table α} (name : String)
    (h : ∀ w : Workspace, table w.silent = table w) : Unaware id (find table name) :=
  look (f := fun w => MonadExcept.ofExcept (Session.find (table w) name))
    (fun w => by rw [h]) fun _ => ofExcept _

/-- Neither does working on the memory. -/
theorem inMemory (action : Action Defect Memory α) :
    Unaware id (defective (inMemory action)) := by
  refine .adapt (.within action ?_ ?_) _ <;> intros <;> rfl

/-- Neither does calling something on a builder. -/
theorem calling (name : String) (builder : BuilderObject)
    (action : Action Defect (BuilderObject × Memory) α) :
    Unaware id (calling name builder action) := by
  refine .within action ?_ ?_ <;> intros <;> rfl

theorem onBuilder (name : String) (action : Action Defect (BuilderObject × Memory) α) :
    Unaware id (onBuilder name action) :=
  .bind (.find name fun _ => rfl) fun _ => .adapt (.calling name _ action) _

theorem state (name : String) : Unaware id (state name) :=
  .bind (.find name fun _ => rfl) fun _ => .settled (.calling name _ Memory.built)

theorem sequence (source : BindingsSource) : Unaware id (sequence source) := by
  cases source with
  | given entries =>
    refine .bind (.ofExcept _) fun resolved => ?_
    cases resolved with
    | none => exact .pure rfl
    | some entries => exact .bind (.make _) fun _ => .pure rfl
  | named list =>
    exact .bind (.find list fun _ => rfl) fun _ => .look (fun _ => rfl) fun _ => .pure rfl

theorem ordered (source : BindingsSource) (reversed : Bool) :
    Unaware id (ordered source reversed) :=
  .bind (.sequence source) fun _ => .pure rfl

theorem setBindings (name : String) (source : BindingsSource) (reversed : Bool) :
    Unaware Answer.silent (setBindings name source reversed) := by
  refine .bind (.find name fun _ => rfl) fun _ => ?_
  refine .bind (.settled (.bind (.ordered source reversed) fun _ => .onBuilder name _)) ?_
  intro outcome
  cases outcome with
  | error failure => exact .bind (.state name) fun _ => .pure rfl
  | ok _ => exact .bind (.state name) fun _ => .pure rfl

theorem changeBuilder (name : String) (etag : Option String → Option String)
    (version : Int → Int) : Unaware Answer.silent (changeBuilder name etag version) :=
  .bind (.onBuilder name _) fun _ => .bind (.state name) fun _ => .pure rfl

theorem bindBuilder (target : String) (builder : BuilderObject) :
    Unaware Answer.silent (bindBuilder target builder) :=
  .bind (.inMemory _) fun _ => .bind (.change fun _ => rfl) fun _ => .pure rfl

theorem bindPolicy (target : String) (policy : PolicyObject) :
    Unaware Answer.silent (bindPolicy target policy) := by
  refine .bind (.change fun _ => rfl) fun _ => ?_
  exact .look (fun _ => rfl) fun _ => .pure rfl

theorem bindMessage (target : String) (message : Wire.Message) :
    Unaware Answer.silent (bindMessage target message) := by
  refine .bind (.change fun _ => rfl) fun _ => ?_
  exact .pure rfl

/-- Looking at a policy does not depend on logging. -/
theorem policy (name : String) {f : Policy → Action Failure Workspace Answer}
    (hf : ∀ policy, Unaware Answer.silent (f policy)) :
    Unaware Answer.silent (do f (← MonadExcept.ofExcept ((← get).policy name))) :=
  .look (fun _ => rfl) fun _ => .bind (.ofExcept _) hf

end Unaware

/-- Only turning logging on or off and conversions depend on logging. -/
theorem act_unaware {step : Step} (h : step.isSwitch = false) (hc : step.isConversion = false) :
    Unaware Answer.silent (act step) := by
  cases step with
  | logging on => cases h
  | newBuilder target =>
    refine .bind (.make Memory.newBuilder) fun builder => ?_
    exact .bindBuilder target builder
  | setBindings builder source reversed => exact .setBindings builder source reversed
  | setEtag builder etag => exact .changeBuilder builder _ _
  | setVersion builder version => exact .changeBuilder builder _ _
  | build builder target => exact .bind (.onBuilder builder _) fun _ => .bindPolicy target _
  | toBuilder policy target =>
    refine .bind (.find policy fun _ => rfl) fun _ => ?_
    exact .bind (.inMemory _) fun _ => .bindBuilder target _
  | get policy => exact .policy policy fun _ => .pure rfl
  | construct target source etag version =>
    refine .bind (.sequence source) fun _ => ?_
    exact .bind (.inMemory _) fun _ => .bindPolicy target _
  | assign policy field => exact .policy policy fun _ => .pure rfl
  | compare left right => exact .policy left fun _ => .policy right fun _ => .pure rfl
  | distinct policies =>
    refine .look (fun _ => rfl) fun w => ?_
    exact .bind (.ofExcept _) fun _ => .pure rfl
  | newList target entries =>
    refine .bind (.ofExcept _) fun _ => .bind (.make _) fun _ => .bind (.make _) fun _ => ?_
    exact .bind (.change fun _ => rfl) fun _ => .pure rfl
  | listAppend list entry =>
    refine .bind (.find list fun _ => rfl) fun _ => .bind (.ofExcept _) fun _ => ?_
    refine .bind (.make _) fun _ => .look (fun _ => rfl) fun _ => ?_
    exact .bind (.change fun _ => rfl) fun _ => .pure rfl
  | listAdd list index identity =>
    refine .bind (.find list fun _ => rfl) fun _ => .bind (.ofExcept _) fun _ => ?_
    exact .bind (.inMemory _) fun _ => .pure rfl
  | listClear list =>
    refine .bind (.find list fun _ => rfl) fun _ => ?_
    exact .bind (.change fun _ => rfl) fun _ => .pure rfl
  | validate target document => exact .bind (.ofExcept _) fun _ => .bindMessage target _
  | read target payload => exact .bind (.ofExcept _) fun _ => .bindMessage target _
  | write message => exact .bind (.find message fun _ => rfl) fun _ => .pure rfl
  | messageVersion message version =>
    exact .bind (.find message fun _ => rfl) fun _ => .bindMessage message _
  | messageEtag message etag =>
    exact .bind (.find message fun _ => rfl) fun _ => .bindMessage message _
  | messageAppend message binding condition =>
    refine .bind (.find message fun _ => rfl) fun _ => ?_
    exact .bind (.ofExcept _) fun _ => .bindMessage message _
  | messageCompare left right =>
    refine .bind (.find left fun _ => rfl) fun _ => ?_
    exact .bind (.find right fun _ => rfl) fun _ => .pure rfl
  | decode message target parse => cases hc
  | encode policy target format listing => cases hc

/-- A conversion is the same without logging but for the records, unless one of these cannot be
made. -/
theorem converted_silent (w : Workspace) (conversion : Logger → Action Fault Bench α)
    (h : Muted [] (conversion w.logger { memory := w.memory })
      (conversion w.silent.logger { memory := w.memory })) :
    ∃ result records w', converted conversion w = .ok (result, records) w' ∧
      ((∃ most, result = .error (.unwritable most)) ∨
        converted conversion w.silent = .ok (result, []) w'.silent) := by
  have hmemory : w.silent.memory = w.memory := rfl
  rw [converted_eq, converted_eq, hmemory]
  generalize conversion w.logger { memory := w.memory } = outcome at h ⊢
  generalize conversion w.silent.logger { memory := w.memory } = outcome' at h ⊢
  cases h with
  | value a bench => exact ⟨_, _, _, rfl, .inr rfl⟩
  | error e bench => exact ⟨_, _, _, rfl, .inr rfl⟩
  | unwritable most bench _ => exact ⟨_, _, _, rfl, .inl ⟨most, rfl⟩⟩

/-- Converting what a name stands for is the same without logging but for the records, if none of
them is in its way, as long as this holds of the conversion and of what is done with its result. -/
theorem conversion_silent {table : Workspace → Table α} {name : String}
    {conversion : α → Logger → Action Fault Bench β}
    {finish : Except Fault β × List Record → Action Failure Workspace Answer}
    (htable : ∀ w : Workspace, table w.silent = table w)
    (hconversion : ∀ a (w : Workspace), Muted [] (conversion a w.logger { memory := w.memory })
      (conversion a w.silent.logger { memory := w.memory }))
    (hfinish : ∀ result records w,
      finish (result, []) w.silent = silenced Answer.silent (finish (result, records) w))
    (hunwritable : ∀ most records w,
      (answered (finish (.error (.unwritable most), records) w)).1.isRendered = false)
    {w : Workspace} {action : Action Failure Workspace Answer}
    (haction : action = (find table name).bind fun a => (converted (conversion a)).bind finish)
    (h : (answered (action w)).1.isRendered = true) :
    action w.silent = silenced Answer.silent (action w) := by
  subst haction
  have hfind := Unaware.find name htable w
  rw [EStateM.bind] at h ⊢
  rw [EStateM.bind, hfind]
  cases hfound : find table name w with
  | error failure w' => rfl
  | ok a w' =>
    obtain ⟨result, records, w'', hconverted, hsilent⟩ :=
      converted_silent w' (conversion a) (hconversion a w')
    simp only [hfound, EStateM.bind, hconverted] at h
    rcases hsilent with ⟨most, rfl⟩ | hsilent
    · rw [hunwritable] at h
      exact absurd h Bool.false_ne_true
    · simp only [silenced, id, EStateM.bind, hconverted, hsilent]
      exact hfinish result records w''

/-- Decoding is the same without logging but for the records, if none of them is in its way. -/
theorem decode_silent {w : Workspace} {message target : String} {parse : Parse}
    (h : (answered (decode message target parse w)).1.isRendered = true) :
    decode message target parse w.silent =
      silenced Answer.silent (decode message target parse w) := by
  have htable (w : Workspace) : messages w.silent = messages w := rfl
  refine conversion_silent htable (fun current w => .decode w.logger parse current) ?_ ?_ rfl h
  · intro result records w
    cases result <;> rfl
  · exact fun _ _ _ => rfl

/-- Encoding is the same without logging but for the records, if none of them is in its way. -/
theorem encode_silent {w : Workspace} {policy target : String} {format : Format}
    {listing : Listing}
    (h : (answered (encode policy target format listing w)).1.isRendered = true) :
    encode policy target format listing w.silent =
      silenced Answer.silent (encode policy target format listing w) := by
  have htable (w : Workspace) : policies w.silent = policies w := rfl
  refine conversion_silent htable (fun current w => .encode w.logger format listing current) ?_ ?_
    rfl h
  · intro result records w
    cases result <;> rfl
  · exact fun _ _ _ => rfl

/-- Every step but turning logging on or off is the same without logging, but for the records, if no
record is in its way. -/
theorem step_silent {w : Workspace} {step : Step} (h : step.isSwitch = false)
    (hr : (w.step step).1.isRendered = true) :
    w.silent.step step = ((w.step step).1.silent, (w.step step).2.silent) := by
  have hact : act step w.silent = silenced Answer.silent (act step w) := by
    cases hc : step.isConversion with
    | false => exact act_unaware h hc w
    | true =>
      cases step with
      | decode message target parse => exact decode_silent hr
      | encode policy target format listing => exact encode_silent hr
      | _ => cases hc
  rw [Workspace.step, hact, Workspace.step]
  cases act step w <;> rfl

/-- A workspace without logging and without the steps that turn it on or off answers the other
steps as the workspace with them does, but for the records, and ends with the same objects, if no
record is in the way of an answer. -/
theorem run_silent (w : Workspace) (steps : List Step)
    (hr : ∀ answer ∈ (w.run steps).1, answer.isRendered = true) :
    w.silent.run (Step.others steps) =
      (Answer.silentOthers (steps.zip (w.run steps).1), (w.run steps).2.silent) := by
  induction steps generalizing w with
  | nil => rfl
  | cons step rest ih =>
    rw [run_cons, List.forall_mem_cons] at hr
    rw [run_cons, List.zip_cons_cons]
    cases h : step.isSwitch with
    | true =>
      have hnext : (w.step step).2.silent = w.silent := by
        cases step with
        | logging on => rfl
        | _ => cases h
      rw [Step.others_cons_of_switch h, Answer.silentOthers_cons_of_switch h, ← hnext]
      exact ih _ hr.2
    | false =>
      rw [Step.others_cons h, Answer.silentOthers_cons h, run_cons, step_silent h hr.1,
        ih _ hr.2]

/-- A name stands for the same thing without logging. -/
@[simp] theorem thing?_silent (w : Workspace) (name : Name) :
    w.silent.thing? name = w.thing? name := by
  cases name <;> rfl

/-- If all records can be made, because there is no limit for digits or because it is not in the way
of any answer, then steps that differ only in those that turn logging on or off have the same
answers but for the records, and leave the same things under every name and the same objects in
memory. A conversion has the outcome that it has by itself, with the records of all that it logs if
the last of these steps before it turned logging on, and with none otherwise. -/
theorem run_logging (digits : Option Nat) (steps steps' : List Step)
    (h : Step.others steps = Step.others steps')
    (hrendered : digits = none ∨ ∀ answer ∈
      (Session.run { digits } steps).1 ++ (Session.run { digits } steps').1,
        answer.isRendered = true) :
    Answer.silentOthers (steps.zip (Session.run { digits } steps).1) =
      Answer.silentOthers (steps'.zip (Session.run { digits } steps').1) ∧
    (∀ name, (Session.run { digits } steps).2.thing? name =
      (Session.run { digits } steps').2.thing? name) ∧
    (run { digits } steps).2.silent = (run { digits } steps').2.silent ∧
    ∀ before after name target, let reached := (Session.run { digits } before).2
      let logger : Logger := ⟨before.foldl Step.switch false, digits⟩
      let answer := (Session.run { digits } steps).1[before.length]?
      (∀ parse message, steps = before ++ .decode name target parse :: after →
        reached.messages.get? name = some message →
        let outcome := Conversion.decode parse message
        ∃ records, answer = some (.decoded ⟨outcome.result, records⟩) ∧
          logger.Tells outcome.log records) ∧
      ∀ format listing policy, steps = before ++ .encode name target format listing :: after →
        reached.policies.get? name = some policy →
        let outcome := Conversion.encode format policy listing
        ∃ records, answer = some (.encoded ⟨outcome.result, records⟩) ∧
          logger.Tells outcome.log records := by
  obtain ⟨hanswers, hmirrors⟩ := (mirrors_empty digits).run steps
  obtain ⟨hanswers', hmirrors'⟩ := (mirrors_empty digits).run steps'
  obtain ⟨hr, hr'⟩ : (∀ answer ∈ (Session.run { digits } steps).1, answer.isRendered = true) ∧
      ∀ answer ∈ (Session.run { digits } steps').1, answer.isRendered = true := by
    rcases hrendered with hnone | hrendered
    · exact ⟨Session.isRendered_run hnone steps, Session.isRendered_run hnone steps'⟩
    · exact List.forall_mem_append.mp hrendered
  have hsilent := run_silent { digits } steps (hanswers ▸ hr)
  rw [h, run_silent { digits } steps' (hanswers' ▸ hr')] at hsilent
  obtain ⟨hsame, hlast⟩ := Prod.mk.inj hsilent
  refine ⟨?_, fun name => ?_, hlast.symm, fun before after name target => ⟨?_, ?_⟩⟩
  · rw [← hanswers, ← hanswers', hsame]
  · rw [← hmirrors.thing?_eq, ← hmirrors'.thing?_eq, ← thing?_silent, ← hlast, thing?_silent]
  · rintro parse message rfl hmessage
    have hanswer := Session.answer_run { digits } before (.decode name target parse) after
    obtain ⟨records, htold, htells⟩ := Session.answer_decode_of_isRendered hmessage
      (hr _ (List.mem_of_getElem? hanswer))
    rw [Session.logger_run] at htells
    exact ⟨records, hanswer.trans (congrArg some htold), htells⟩
  · rintro format listing policy rfl hpolicy
    have hanswer := Session.answer_run { digits } before (.encode name target format listing) after
    obtain ⟨records, htold, htells⟩ := Session.answer_encode_of_isRendered hpolicy
      (hr _ (List.mem_of_getElem? hanswer))
    rw [Session.logger_run] at htells
    exact ⟨records, hanswer.trans (congrArg some htold), htells⟩

/-- A policy whose etag is not Base64 and whose only binding has a condition. -/
private def guarded : Policy :=
  ⟨[⟨some .viewer, some (OrderedSet.ofList [some ⟨.allUsers, none⟩]), some {}⟩], some "!", 1⟩

/-- Encoding fails with logging on, decoding succeeds with logging off, and decoding fails with
logging on again. -/
private def switched : List Step :=
  [.logging true,
    .construct "stored"
      (.given (some [.binding (.name "viewer") (some [.text "allUsers"]) (some {})])) (some "!") 1,
    .encode "stored" "sent" .text,
    .logging false,
    .validate "sent" (.object []),
    .decode "sent" "read" .canonical,
    .logging true,
    .decode "absent" "read" .canonical]

/-- Encoding warns of the condition before it fails, unless logging is not turned on before it. All
else is the same without turning logging on or off. -/
theorem run_logging_switched :
    let kept := Step.others switched
    Step.others switched = Step.others kept ∧
    (∀ answer ∈ (Session.run {} switched).1 ++ (Session.run {} kept).1,
      answer.isRendered = true) ∧
    Answer.silentOthers (switched.zip (Session.run {} switched).1) =
      Answer.silentOthers (kept.zip (Session.run {} kept).1) ∧
    (run {} switched).2.silent = (run {} kept).2.silent ∧
    (Session.run {} switched).1[2]? = some (.encoded ⟨.error (.etag "!"),
      [⟨.warning, "condition on roles/viewer is not encoded; dropping it"⟩]⟩) ∧
    (Session.run {} kept).1[1]? = some (.encoded ⟨.error (.etag "!"), []⟩) := by
  intro kept
  have hkept : Step.others switched = Step.others kept := rfl
  have hrendered : ∀ answer ∈ (Session.run {} switched).1 ++ (Session.run {} kept).1,
      answer.isRendered = true := by
    decide +kernel
  have hrendered' : ∀ answer ∈ (Session.run {} kept).1 ++ (Session.run {} switched).1,
      answer.isRendered = true := by
    decide +kernel
  have hresult : (Conversion.encode .text guarded).result = .error (.etag "!") := by decide +kernel
  have hlog : (Conversion.encode .text guarded).log = [.dropped "roles/viewer"] := by decide +kernel
  obtain ⟨hanswers, _, hlast, htold⟩ := run_logging (some 4300) switched kept hkept (.inr hrendered)
  obtain ⟨_, _, _, huntold⟩ := run_logging (some 4300) kept switched hkept.symm (.inr hrendered')
  obtain ⟨records, hanswer, hrecords⟩ :=
    (htold (switched.take 2) (switched.drop 3) "stored" "sent").2 .text .sorted guarded rfl
      (by decide +kernel)
  obtain ⟨records', hanswer', hrecords'⟩ :=
    (huntold (kept.take 1) (kept.drop 2) "stored" "sent").2 .text .sorted guarded rfl
      (by decide +kernel)
  rw [hresult] at hanswer hanswer'
  rw [hlog] at hrecords
  obtain rfl : _ = records := Except.ok.inj hrecords
  obtain rfl : records' = [] := hrecords'
  exact ⟨hkept, hrendered, hanswers, hlast, hanswer, hanswer'⟩

end Workspace

end AccessPolicy
