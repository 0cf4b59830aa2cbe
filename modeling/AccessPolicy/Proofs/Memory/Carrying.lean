import AccessPolicy.Memory.Action
import AccessPolicy.Proofs.Outcome

/-!
# Actions and outcomes

What an action comes to carries an outcome if both are the same error, or values that are related
along with the state that is left behind. Of the state that an error leaves behind something is
known as well. So an action may do what it likes before it fails, as long as this can be told of the
state afterwards.
-/

namespace AccessPolicy

variable {ε ε' σ τ α β γ δ ω : Type}

/-- After an action that gives a value it goes on with this value. -/
theorem Action.bind_of_ok {action : Action ε σ α} {state left : σ} {value : α}
    (h : action state = .ok value left) (rest : α → Action ε σ γ) :
    EStateM.bind action rest state = rest value left := by
  rw [EStateM.bind, h]

/-- Whether what an action comes to carries an outcome. -/
inductive Carries (R : α → σ → β → Prop) (E : σ → Prop) :
    EStateM.Result ε σ α → Except ε β → Prop where
  | value {a : α} {s : σ} {b : β} (related : R a s b) : Carries R E (.ok a s) (.ok b)
  | error (e : ε) {s : σ} (left : E s) : Carries R E (.error e s) (.error e)

namespace Carries

variable {R : α → σ → β → Prop} {S : γ → σ → δ → Prop} {E F : σ → Prop} {s : σ}
  {outcome : EStateM.Result ε σ α} {y : Except ε β}

/-- Carrying is weakened along with what is known. -/
theorem imp {R' : α → σ → β → Prop} (h : Carries R E outcome y)
    (hr : ∀ a s b, R a s b → R' a s b) (he : ∀ s, E s → F s) : Carries R' F outcome y := by
  cases h with
  | value related => exact .value (hr _ _ _ related)
  | error e left => exact .error e (he _ left)

/-- Going on after a value carries an outcome if it does, and if an error does that is left as it
is. -/
theorem follow {x : Action ε σ α} {f : α → Action ε σ γ} {z : Except ε δ} (h : Carries R E (x s) y)
    (hok : ∀ a t b, y = .ok b → R a t b → Carries S F (f a t) z)
    (herror : ∀ e t, y = .error e → E t → Carries S F (.error e t) z) :
    Carries S F (x.bind f s) z := by
  rw [EStateM.bind]
  generalize x s = outcome at h ⊢
  cases h with
  | value related => exact hok _ _ _ rfl related
  | error e left => exact herror e _ rfl left

/-- One action after another carries one outcome after another. -/
theorem bind {x : Action ε σ α} {f : α → Action ε σ γ} {g : β → Except ε δ}
    (h : Carries R E (x s) y) (hf : ∀ a t b, R a t b → Carries S E (f a t) (g b)) :
    Carries S E (x.bind f s) (y.bind g) := by
  refine h.follow (fun a t b hy hr => ?_) fun e t hy he => ?_
  · rw [hy]
    exact hf a t b hr
  · rw [hy]
    exact .error e he

/-- One action after another carries a function of an outcome if the second one does not fail. -/
theorem map {x : Action ε σ α} {f : α → Action ε σ γ} {g : β → δ} (h : Carries R E (x s) y)
    (hf : ∀ a t b, R a t b → Carries S E (f a t) (.ok (g b))) :
    Carries S E (x.bind f s) (y.map g) := by
  refine h.follow (fun a t b hy hr => ?_) fun e t hy he => ?_
  · rw [hy]
    exact hf a t b hr
  · rw [hy]
    exact .error e he

/-- An outcome is carried on by an action that does not fail on its values. -/
theorem andThen {S : γ → σ → β → Prop} {x : Action ε σ α} {f : α → Action ε σ γ}
    (h : Carries R E (x s) y) (hf : ∀ a t b, y = .ok b → R a t b → Carries S E (f a t) (.ok b)) :
    Carries S E (x.bind f s) y := by
  refine h.follow (fun a t b hy hr => ?_) fun e t hy he => ?_
  · rw [hy]
    exact hf a t b hy hr
  · rw [hy]
    exact .error e he

/-- A value that is carried is the value of the outcome. -/
theorem known (h : Carries R E outcome y) :
    Carries (fun a s b => y = .ok b ∧ R a s b) E outcome y := by
  cases h with
  | value related => exact .value ⟨rfl, related⟩
  | error e left => exact .error e left

/-- Nothing is done after an error. -/
theorem stop {x : Action ε σ α} {e : ε} (h : Carries R E (x s) (.error e : Except ε β))
    (f : α → Action ε σ γ) : Carries S E (x.bind f s) (.error e) := by
  refine h.follow (fun a t b hy hr => ?_) fun e' t hy he => ?_
  · cases hy
  · cases hy
    exact .error e he

/-- After a value it goes on. -/
theorem goOn {x : Action ε σ α} {f : α → Action ε σ γ} {b : β} {z : Except ε δ}
    (h : Carries R E (x s) (.ok b)) (hf : ∀ a t, R a t b → Carries S F (f a t) z) :
    Carries S F (x.bind f s) z := by
  refine h.follow (fun a t b' hy hr => ?_) fun e t hy he => ?_
  · cases hy
    exact hf a t hr
  · cases hy

/-- A look at the state changes nothing. -/
theorem get {f : σ → Action ε σ α} (h : Carries R E (f s s) y) :
    Carries R E (EStateM.bind EStateM.get f s) y :=
  h

/-- A change to the state gives a value, with which it goes on. -/
theorem modifyGet {change : σ → γ × σ} {f : γ → Action ε σ α}
    (h : Carries R E (f (change s).1 (change s).2) y) :
    Carries R E (EStateM.bind (EStateM.modifyGet change) f s) y :=
  h

/-- An outcome that is taken over leaves the state alone. -/
theorem ofExcept {R : α → β → Prop} {x : Except ε α} (h : Matches R x y) (he : E s) :
    Carries (fun a t b => t = s ∧ R a b) E ((MonadExcept.ofExcept x : Action ε σ α) s) y := by
  cases h with
  | value related => exact .value ⟨rfl, related⟩
  | error e => exact .error e he

/-- An outcome that is taken over is gone on with in the same state. -/
theorem take {R : α → β → Prop} {x : Except ε α} {f : α → Action ε σ γ} {g : β → Except ε δ}
    (h : Matches R x y) (he : E s) (hf : ∀ a b, R a b → Carries S E (f a s) (g b)) :
    Carries S E (EStateM.bind (MonadExcept.ofExcept x) f s) (y.bind g) := by
  refine (ofExcept h he).bind ?_
  rintro a _ b ⟨rfl, hr⟩
  exact hf a b hr

/-- What comes of an action, be it a value or an error, is a value that counts as the outcome. -/
theorem settled {T : Except ε α → σ → Except ε β → Prop} {x : Action ε σ α}
    (h : Carries R E (x s) y) (hok : ∀ a t b, R a t b → T (.ok a) t (.ok b))
    (herror : ∀ e t, E t → T (.error e) t (.error e)) :
    Carries T F (Action.settled x s : EStateM.Result ε' σ _) (.ok y) := by
  rw [Action.settled]
  generalize x s = outcome at h ⊢
  cases h with
  | value related => exact .value (hok _ _ _ related)
  | error e left => exact .value (herror e _ left)

/-- Going on after a value as well as after an error carries an outcome if it does in both cases. -/
theorem settle {x : Action ε σ α} {f : Except ε α → Action ε' σ γ} {z : Except ε' δ}
    (h : Carries R E (x s) y)
    (hok : ∀ a t b, y = .ok b → R a t b → Carries S F (f (.ok a) t) z)
    (herror : ∀ e t, y = .error e → E t → Carries S F (f (.error e) t) z) :
    Carries S F (EStateM.bind (Action.settled x) f s) z := by
  rw [EStateM.bind, Action.settled]
  generalize x s = outcome at h ⊢
  cases h with
  | value related => exact hok _ _ _ rfl related
  | error e left => exact herror _ _ rfl left

/-- Failing otherwise carries an outcome that is an error otherwise. -/
theorem adapt {x : Action ε σ α} (h : Carries R E (x s) y) (f : ε → ε') :
    Carries R E (x.adaptExcept f s) (y.mapError f) := by
  rw [EStateM.adaptExcept]
  generalize x s = outcome at h ⊢
  cases h with
  | value related => exact .value related
  | error e left => exact .error (f e) left

/-- Working on a part of a state puts back what has become of it, also after an error. -/
theorem within {part : τ → σ} {x : Action ε σ α} {t : τ} (put : σ → τ → τ)
    (h : Carries R E (x (part t)) y) :
    Carries (fun a t' b => ∃ s, t' = put s t ∧ R a s b) (fun t' => ∃ s, t' = put s t ∧ E s)
      (Action.within part put x t) y := by
  rw [Action.within]
  generalize x (part t) = outcome at h ⊢
  cases h with
  | value related => exact .value ⟨_, rfl, related⟩
  | error e left => exact .error e ⟨_, rfl, left⟩

/-- Holding something along with a state gives it back with a value. -/
theorem holding {R : α → ω × σ → β → Prop} {other : ω} {x : Action ε (ω × σ) α}
    (h : Carries R (fun left => E left.2) (x (other, s)) y) :
    Carries (fun a t b => R a.1 (a.2, t) b) E (Action.holding other x s) y := by
  rw [Action.holding]
  generalize x (other, s) = outcome at h ⊢
  cases h with
  | value related => exact .value related
  | error e left => exact .error e left

/-- What carries a value is a value that is related to it. -/
theorem exists_ok {b : β} (h : Carries R E outcome (.ok b)) : ∃ a s, outcome = .ok a s ∧ R a s b := by
  cases h with
  | value related => exact ⟨_, _, rfl, related⟩

/-- The state that is left behind, by the outcome that is carried. -/
theorem left {x : Action ε σ α} (h : Carries R E (x s) y) :
    (∃ e, y = .error e ∧ E (x.left s)) ∨ ∃ a b, y = .ok b ∧ R a (x.left s) b := by
  rw [Action.left]
  generalize x s = outcome at h ⊢
  cases h with
  | value related => exact .inr ⟨_, _, rfl, related⟩
  | error e left => exact .inl ⟨e, rfl, left⟩

end Carries

end AccessPolicy
