import Mathlib.Data.List.Forall2

/-!
# Outcomes

An outcome is a value or an error. These lemmas say when an outcome that is computed from others
is a value: each of the others has to be one. Two computations that run side by side match if they
fail alike or give values that are related.
-/

namespace AccessPolicy

variable {α β γ δ ε ε' : Type}

/-- A mapped outcome is a value exactly when it comes from one. -/
theorem map_eq_ok_iff {outcome : Except ε α} {f : α → β} {value : β} :
    outcome.map f = .ok value ↔ ∃ source, outcome = .ok source ∧ f source = value := by
  cases outcome with
  | error e =>
    constructor
    · intro h
      cases h
    · rintro ⟨source, h, _⟩
      cases h
  | ok source =>
    constructor
    · intro h
      exact ⟨source, rfl, Except.ok.inj h⟩
    · rintro ⟨source', h, rfl⟩
      cases h
      rfl

/-- A mapped outcome is an error exactly when it comes from the same one. -/
theorem map_eq_error_iff {outcome : Except ε α} {f : α → β} {e : ε} :
    outcome.map f = .error e ↔ outcome = .error e := by
  cases outcome with
  | error e' => simp only [Except.map, Except.error.injEq]
  | ok source => simp only [Except.map, reduceCtorEq]

/-- Changing the error of an outcome keeps its values. -/
theorem mapError_eq_ok_iff {outcome : Except ε α} {f : ε → ε'} {value : α} :
    outcome.mapError f = .ok value ↔ outcome = .ok value := by
  cases outcome with
  | error e =>
    constructor <;> intro h <;> cases h
  | ok source =>
    constructor <;> intro h <;> cases h <;> rfl

/-- An outcome with another error is an error exactly when it comes from one. -/
theorem mapError_eq_error_iff {outcome : Except ε α} {f : ε → ε'} {e : ε'} :
    outcome.mapError f = .error e ↔ ∃ source, outcome = .error source ∧ f source = e := by
  cases outcome with
  | error source => simp only [Except.mapError, Except.error.injEq, exists_eq_left']
  | ok value => simp only [Except.mapError, reduceCtorEq, false_and, exists_false]

/-- Two steps one after the other give a value exactly when both do. -/
theorem bind_eq_ok_iff {outcome : Except ε α} {f : α → Except ε β} {value : β} :
    outcome.bind f = .ok value ↔ ∃ source, outcome = .ok source ∧ f source = .ok value := by
  cases outcome with
  | error e =>
    constructor
    · intro h
      cases h
    · rintro ⟨source, h, _⟩
      cases h
  | ok source =>
    constructor
    · intro h
      exact ⟨source, rfl, h⟩
    · rintro ⟨source', h, hf⟩
      cases h
      exact hf

/-- Steps one after another are taken in any grouping. -/
theorem bind_bind (outcome : Except ε α) (f : α → Except ε β) (g : β → Except ε γ) :
    (outcome.bind f).bind g = outcome.bind fun value => (f value).bind g := by
  cases outcome <;> rfl

/-- A traversal gives the values of its items, one by one. -/
theorem mapM_eq_ok_iff {f : α → Except ε β} {items : List α} {values : List β} :
    items.mapM f = .ok values ↔
      List.Forall₂ (fun item value => f item = .ok value) items values := by
  induction items generalizing values with
  | nil =>
    rw [List.mapM_nil, List.forall₂_nil_left_iff]
    exact ⟨fun h => (Except.ok.inj h).symm, fun h => h ▸ rfl⟩
  | cons item rest ih =>
    rw [List.mapM_cons, List.forall₂_cons_left_iff]
    constructor
    · intro h
      obtain ⟨value, hv, h⟩ := bind_eq_ok_iff.mp h
      obtain ⟨others, ho, h⟩ := bind_eq_ok_iff.mp h
      exact ⟨value, others, hv, ih.mp ho, (Except.ok.inj h).symm⟩
    · rintro ⟨value, others, hv, ho, rfl⟩
      exact bind_eq_ok_iff.mpr ⟨value, hv, bind_eq_ok_iff.mpr ⟨others, ih.mpr ho, rfl⟩⟩

/-- The values of a traversal are the values of its items. -/
theorem mem_iff_of_mapM_eq_ok {f : α → Except ε β} {items : List α} {values : List β}
    (h : items.mapM f = .ok values) {value : β} :
    value ∈ values ↔ ∃ item ∈ items, f item = .ok value := by
  have hall := mapM_eq_ok_iff.mp h
  induction hall with
  | nil => simp only [List.not_mem_nil, false_and, exists_false]
  | @cons item first rest others hf ho ih =>
    rw [List.mem_cons, List.exists_mem_cons_iff, hf, Except.ok.injEq, eq_comm]
    exact or_congr_right (ih (mapM_eq_ok_iff.mpr ho))

/-- Each value of a traversal is the value of an item. -/
theorem exists_of_mem_of_mapM_eq_ok {f : α → Except ε β} {items : List α} {values : List β}
    (h : items.mapM f = .ok values) {value : β} (hm : value ∈ values) :
    ∃ item ∈ items, f item = .ok value :=
  (mem_iff_of_mapM_eq_ok h).mp hm

/-- Each item of a traversal that gives values has one. -/
theorem exists_ok_of_mapM_eq_ok {f : α → Except ε β} {items : List α} {values : List β}
    (h : items.mapM f = .ok values) : ∀ item ∈ items, ∃ value, f item = .ok value :=
  ((List.forall₂_and_left _ _).mp
    ((mapM_eq_ok_iff.mp h).imp fun _ value hv => ⟨⟨value, hv⟩, hv⟩)).1

/-- A traversal of items that have values has values. -/
theorem exists_mapM_eq_ok {f : α → Except ε β} {items : List α}
    (h : ∀ item ∈ items, ∃ value, f item = .ok value) : ∃ values, items.mapM f = .ok values := by
  induction items with
  | nil => exact ⟨[], rfl⟩
  | cons item rest ih =>
    rw [List.forall_mem_cons] at h
    obtain ⟨value, hv⟩ := h.1
    obtain ⟨values, hr⟩ := ih h.2
    refine ⟨value :: values, ?_⟩
    rw [List.mapM_cons, hv, hr]
    rfl

/-- Two traversals give the same values if their items do, one by one. -/
theorem mapM_eq_ok_congr {f : α → Except ε γ} {g : β → Except ε' γ} {items : List α}
    {others : List β} {values : List γ}
    (h : List.Forall₂ (fun item other => ∀ value, f item = .ok value ↔ g other = .ok value)
      items others) : items.mapM f = .ok values ↔ others.mapM g = .ok values := by
  rw [mapM_eq_ok_iff, mapM_eq_ok_iff]
  induction h generalizing values with
  | nil => rw [List.forall₂_nil_left_iff, List.forall₂_nil_left_iff]
  | cons hfirst _ ih =>
    rw [List.forall₂_cons_left_iff, List.forall₂_cons_left_iff]
    simp only [hfirst, ih]

/-- A traversal fails with the error of the first item that fails. -/
theorem mapM_eq_error_of_first {f : α → Except ε β} {before : List α} {item : α} {e : ε}
    (hbefore : ∀ earlier ∈ before, ∃ value, f earlier = .ok value) (h : f item = .error e)
    (after : List α) : (before ++ item :: after).mapM f = .error e := by
  obtain ⟨values, hvalues⟩ := exists_mapM_eq_ok hbefore
  rw [List.mapM_append, hvalues, List.mapM_cons, h]
  rfl

/-- A traversal fails exactly if an item fails that comes after items with values only, and with the
error of this item. -/
theorem mapM_eq_error_iff {f : α → Except ε β} {items : List α} {e : ε} :
    items.mapM f = .error e ↔
      ∃ before item after, items = before ++ item :: after ∧
        (∀ earlier ∈ before, ∃ value, f earlier = .ok value) ∧ f item = .error e := by
  constructor
  · intro h
    induction items with
    | nil => cases h
    | cons item rest ih =>
      rw [List.mapM_cons] at h
      cases hitem : f item with
      | error failure =>
        rw [hitem] at h
        cases h
        exact ⟨[], item, rest, rfl, fun _ hm => absurd hm List.not_mem_nil, hitem⟩
      | ok value =>
        rw [hitem] at h
        cases hrest : rest.mapM f with
        | ok values =>
          rw [hrest] at h
          cases h
        | error failure =>
          rw [hrest] at h
          cases h
          obtain ⟨before, first, after, rfl, hbefore, hfirst⟩ := ih hrest
          exact ⟨item :: before, first, after, rfl,
            List.forall_mem_cons.mpr ⟨⟨value, hitem⟩, hbefore⟩, hfirst⟩
  · rintro ⟨before, item, after, rfl, hbefore, hitem⟩
    exact mapM_eq_error_of_first hbefore hitem after

/-- Two outcomes match if they are the same error, or two values in a relation. -/
inductive Matches (R : α → β → Prop) : Except ε α → Except ε β → Prop where
  | value {a : α} {b : β} (related : R a b) : Matches R (.ok a) (.ok b)
  | error (e : ε) : Matches R (.error e) (.error e)

namespace Matches

variable {R : α → β → Prop} {S : γ → δ → Prop} {x : Except ε α} {y : Except ε β}

/-- An outcome matches itself. -/
theorem refl (x : Except ε α) : Matches Eq x x := by
  cases x with
  | error e => exact .error e
  | ok a => exact .value rfl

/-- Matching goes on through steps that match on related values. -/
theorem bind {f : α → Except ε γ} {g : β → Except ε δ} (h : Matches R x y)
    (hf : ∀ a b, R a b → Matches S (f a) (g b)) : Matches S (x.bind f) (y.bind g) := by
  cases h with
  | value related => exact hf _ _ related
  | error e => exact .error e

/-- A mapped outcome matches its source if each value is related to what it is mapped to. -/
theorem of_map {R : γ → α → Prop} {x : Except ε α} {f : α → γ}
    (h : ∀ a, x = .ok a → R (f a) a) : Matches R (x.map f) x := by
  cases x with
  | error e => exact .error e
  | ok a => exact .value (h a rfl)

/-- What matches a value is a value that is related to it. -/
theorem exists_ok {b : β} (h : Matches R x (.ok b)) : ∃ a, x = .ok a ∧ R a b := by
  cases h with
  | value related => exact ⟨_, rfl, related⟩

/-- If related values are those a function gives, the whole outcome is what the function gives. -/
theorem map_eq {f : α → β} (h : Matches R x y) (hf : ∀ a b, R a b → f a = b) : x.map f = y := by
  cases h with
  | value related => exact congrArg Except.ok (hf _ _ related)
  | error e => rfl

end Matches

end AccessPolicy
