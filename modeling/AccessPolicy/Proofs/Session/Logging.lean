import AccessPolicy.Proofs.Session.Effect

/-!
# Logging in sessions

What a conversion tells of its records depends on whether logging is on when it is taken, and the
last step before it that turned logging on or off decides this. An answer without its records is
silent.
-/

namespace AccessPolicy

/-- Whether a step turns logging on or off. -/
def Step.isSwitch : Step → Bool
  | .logging _ => true
  | _ => false

/-- Whether logging is on after a step, by whether it was on before. -/
def Step.switch (on : Bool) : Step → Bool
  | .logging on => on
  | _ => on

/-- The steps other than those that turn logging on or off. -/
def Step.others (steps : List Step) : List Step := steps.filter fun step => !step.isSwitch

/-- An answer without its records. -/
def Answer.silent : Answer → Answer
  | .decoded shown => .decoded ⟨shown.result, []⟩
  | .encoded shown => .encoded ⟨shown.result, []⟩
  | answer => answer

/-- Whether no record was in the way of an answer because it could not be made. -/
def Answer.isRendered : Answer → Bool
  | .decoded shown => shown.isRendered
  | .encoded shown => shown.isRendered
  | _ => true

/-- The answers to the steps other than those that turn logging on or off, without their records. -/
def Answer.silentOthers (taken : List (Step × Answer)) : List Answer :=
  (taken.filter fun taken => !taken.1.isSwitch).map fun taken => taken.2.silent

/-- A step that turns logging on or off is left out. -/
theorem Step.others_cons_of_switch {step : Step} (h : step.isSwitch = true) (rest : List Step) :
    others (step :: rest) = others rest :=
  List.filter_cons_of_neg (by rw [h]; decide)

/-- Any other step is kept. -/
theorem Step.others_cons {step : Step} (h : step.isSwitch = false) (rest : List Step) :
    others (step :: rest) = step :: others rest :=
  List.filter_cons_of_pos (by rw [h]; decide)

/-- The answer to a step that turns logging on or off is left out. -/
theorem Answer.silentOthers_cons_of_switch {step : Step} (h : step.isSwitch = true)
    (answer : Answer) (rest : List (Step × Answer)) :
    silentOthers ((step, answer) :: rest) = silentOthers rest := by
  simp [silentOthers, h]

/-- The answer to any other step is kept without its records. -/
theorem Answer.silentOthers_cons {step : Step} (h : step.isSwitch = false)
    (answer : Answer) (rest : List (Step × Answer)) :
    silentOthers ((step, answer) :: rest) = answer.silent :: silentOthers rest := by
  simp [silentOthers, h]

namespace Session

variable {s : Session}

/-- A step keeps logging on or off unless it is there to turn it on or off. -/
theorem logging_step (step : Step) : (s.step step).2.logging = step.switch s.logging := by
  have heffect := s.step_effect step
  cases step with
  | logging on => rfl
  | _ =>
    generalize (s.step _).2 = next at heffect ⊢
    generalize (s.step _).1 = answer at heffect
    cases heffect with
    | nothing _ => rfl
    | logging hstep => cases hstep
    | write name thing _ _ _ => cases thing <;> rfl

/-- The number of digits that may be written out stays the same. -/
theorem digits_step (step : Step) : (s.step step).2.digits = s.digits := by
  have heffect := s.step_effect step
  generalize (s.step step).2 = next at heffect ⊢
  generalize (s.step step).1 = answer at heffect
  cases heffect with
  | nothing _ => rfl
  | logging _ => rfl
  | write name thing _ _ _ => cases thing <;> rfl

/-- So it stays the same in a run. -/
theorem digits_run (steps : List Step) : (s.run steps).2.digits = s.digits := by
  induction steps generalizing s with
  | nil => rfl
  | cons step rest ih => rw [run_cons, ih, digits_step]

/-- The last step that turns logging on or off decides whether it is on. -/
theorem logging_run (steps : List Step) :
    (s.run steps).2.logging = steps.foldl Step.switch s.logging := by
  induction steps generalizing s with
  | nil => rfl
  | cons step rest ih => rw [run_cons, ih, logging_step, List.foldl_cons]

/-- What becomes of logs after some steps. -/
theorem logger_run (steps : List Step) :
    (s.run steps).2.logger = ⟨steps.foldl Step.switch s.logging, s.digits⟩ := by
  rw [logger, logging_run, digits_run]

/-- Decoding a message answers with what is seen of its outcome. -/
theorem answer_decode {message : String} {found : Wire.Message}
    (h : s.messages.get? message = some found) (target : String) (parse : Parse) :
    (s.step (.decode message target parse)).1 =
      .decoded (s.logger.shown (Conversion.decode parse found)) := by
  rw [step, decode, find_eq_ok_iff.mpr h]
  simp only [bind, Except.bind, pure, Except.pure]
  cases (s.logger.shown (Conversion.decode parse found)).result <;> rfl

/-- Encoding a policy answers with what is seen of its outcome. -/
theorem answer_encode {policy : String} {found : Policy}
    (h : s.policies.get? policy = some found) (target : String) (format : Format)
    (listing : Listing) :
    (s.step (.encode policy target format listing)).1 =
      .encoded (s.logger.shown (Conversion.encode format found listing)) := by
  rw [step, encode, find_eq_ok_iff.mpr h]
  simp only [bind, Except.bind, pure, Except.pure]
  cases (s.logger.shown (Conversion.encode format found listing)).result <;> rfl

/-- Unless a record is in the way, decoding answers with its outcome and the records of its log. -/
theorem answer_decode_of_isRendered {message target : String} {parse : Parse}
    {found : Wire.Message} (h : s.messages.get? message = some found)
    (hr : (s.step (.decode message target parse)).1.isRendered = true) :
    ∃ records, (s.step (.decode message target parse)).1 =
        .decoded ⟨(Conversion.decode parse found).result, records⟩ ∧
      s.logger.Tells (Conversion.decode parse found).log records := by
  rw [answer_decode h] at hr ⊢
  obtain ⟨records, hshown, htells⟩ := Logger.shown_of_isRendered hr
  exact ⟨records, congrArg Answer.decoded hshown, htells⟩

/-- Unless a record is in the way, encoding answers with its outcome and the records of its log. -/
theorem answer_encode_of_isRendered {policy target : String} {format : Format} {listing : Listing}
    {found : Policy} (h : s.policies.get? policy = some found)
    (hr : (s.step (.encode policy target format listing)).1.isRendered = true) :
    ∃ records, (s.step (.encode policy target format listing)).1 =
        .encoded ⟨(Conversion.encode format found listing).result, records⟩ ∧
      s.logger.Tells (Conversion.encode format found listing).log records := by
  rw [answer_encode h] at hr ⊢
  obtain ⟨records, hshown, htells⟩ := Logger.shown_of_isRendered hr
  exact ⟨records, congrArg Answer.encoded hshown, htells⟩

/-! ## Without a limit for digits -/

/-- Whether no record is in the way of what a computation answers. -/
def Renders (result : Except Failure Result) : Prop :=
  ∀ taken, result = .ok taken → taken.1.isRendered = true

/-- No record is in the way of an answer that is given. -/
theorem Renders.ok {answer : Answer} {next : Session} (h : answer.isRendered = true) :
    Renders (.ok (answer, next)) := by
  rintro taken ⟨⟩
  exact h

/-- A computation goes on with what its first part gives. -/
theorem Renders.bind {α : Type} {first : Except Failure α} {rest : α → Except Failure Result}
    (h : ∀ value, Renders (rest value)) : Renders (first.bind rest) := by
  intro taken ht
  obtain ⟨value, _, hr⟩ := bind_eq_ok_iff.mp ht
  exact h value taken hr

/-- No record is in the way of a failure. -/
theorem Renders.attempt {result : Except Failure Result} (h : Renders result) :
    (s.attempt result).1.isRendered = true := by
  cases result with
  | error failure => rfl
  | ok taken => exact h taken rfl

theorem renders_bindBuilder (target : String) (builder : Builder) :
    Renders (s.bindBuilder target builder) :=
  .bind fun _ => .ok rfl

/-- Without a limit no record is in the way of a step. -/
theorem isRendered_step (h : s.digits = none) (step : Step) :
    (s.step step).1.isRendered = true := by
  have hending : ∀ log, s.logger.ending log = .ok () := Logger.ending_of_unlimited h
  cases step with
  | logging on => rfl
  | newBuilder target => exact (renders_bindBuilder target _).attempt
  | setBindings builder source reversed =>
    refine Renders.attempt (.bind fun _ => ?_)
    split <;> exact .ok rfl
  | setEtag builder etag => exact Renders.attempt (.bind fun _ => .ok rfl)
  | setVersion builder version => exact Renders.attempt (.bind fun _ => .ok rfl)
  | build builder target => exact Renders.attempt (.bind fun _ => .bind fun _ => .ok rfl)
  | toBuilder policy target =>
    exact Renders.attempt (.bind fun _ => .bind fun _ => renders_bindBuilder target _)
  | get policy => exact Renders.attempt (.bind fun _ => .ok rfl)
  | construct target source etag version =>
    exact Renders.attempt (.bind fun _ => .bind fun _ => .ok rfl)
  | assign policy field => exact Renders.attempt (.bind fun _ => .ok rfl)
  | compare left right => exact Renders.attempt (.bind fun _ => .bind fun _ => .ok rfl)
  | distinct policies => exact Renders.attempt (.bind fun _ => .ok rfl)
  | newList target entries => exact Renders.attempt (.bind fun _ => .ok rfl)
  | listAppend list entry => exact Renders.attempt (.bind fun _ => .bind fun _ => .ok rfl)
  | listAdd list index identity =>
    exact Renders.attempt (.bind fun _ => .bind fun _ => .bind fun _ => .ok rfl)
  | listClear list => exact Renders.attempt (.bind fun _ => .ok rfl)
  | validate target document => exact Renders.attempt (.bind fun _ => .ok rfl)
  | read target payload => exact Renders.attempt (.bind fun _ => .ok rfl)
  | write message => exact Renders.attempt (.bind fun _ => .ok rfl)
  | messageVersion message version => exact Renders.attempt (.bind fun _ => .ok rfl)
  | messageEtag message etag => exact Renders.attempt (.bind fun _ => .ok rfl)
  | messageAppend message binding condition =>
    exact Renders.attempt (.bind fun _ => .bind fun _ => .ok rfl)
  | messageCompare left right => exact Renders.attempt (.bind fun _ => .bind fun _ => .ok rfl)
  | decode message target parse =>
    refine Renders.attempt (.bind fun found => ?_)
    have hr := Conversion.isRendered_decode hending parse found
    simp only
    split <;> exact .ok hr
  | encode policy target format listing =>
    refine Renders.attempt (.bind fun found => ?_)
    have hr := Conversion.isRendered_encode hending format found listing
    simp only
    split <;> exact .ok hr

/-- Without a limit no record is in the way of any answer. -/
theorem isRendered_run (h : s.digits = none) (steps : List Step) :
    ∀ answer ∈ (s.run steps).1, answer.isRendered = true := by
  induction steps generalizing s with
  | nil => exact fun _ hm => absurd hm List.not_mem_nil
  | cons step rest ih =>
    rw [run_cons, List.forall_mem_cons]
    exact ⟨isRendered_step h step, ih ((digits_step step).trans h)⟩

end Session

end AccessPolicy
