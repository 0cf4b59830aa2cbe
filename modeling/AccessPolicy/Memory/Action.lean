/-!
# Actions

An action works on a state, and then it gives a value or fails. It leaves a state behind in both
cases: what was done before a failure is not undone.
-/

namespace AccessPolicy

/-- What works on a state and may fail. -/
abbrev Action (ε σ α : Type) := EStateM ε σ α

namespace Action

variable {ε ε' σ τ α : Type}

/-- Works on a part of a state. Whatever the part has become is put back, also after a failure. -/
def within (part : σ → τ) (put : τ → σ → σ) (action : Action ε τ α) : Action ε σ α := fun state =>
  match action (part state) with
  | .ok value changed => .ok value (put changed state)
  | .error error changed => .error error (put changed state)

/-- Works on a state while something else is held that can be worked on as well. This is given back
along with the value, and a failure loses it. -/
def holding {ω : Type} (other : ω) (action : Action ε (ω × σ) α) :
    Action ε σ (α × ω) := fun state =>
  match action (other, state) with
  | .ok value (other, changed) => .ok (value, other) changed
  | .error error (_, changed) => .error error changed

/-- Goes on after a failure, which counts as the value. -/
def settled (action : Action ε σ α) : Action ε' σ (Except ε α) := fun state =>
  match action state with
  | .ok value changed => .ok (.ok value) changed
  | .error error changed => .ok (.error error) changed

/-- The state that is left behind. -/
def left (action : Action ε σ α) (state : σ) : σ :=
  match action state with
  | .ok _ changed => changed
  | .error _ changed => changed

end Action

end AccessPolicy
