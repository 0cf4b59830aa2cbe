import AccessPolicy.Proofs.Wire.Exactness

/-!
# What is reported on one member

The violations of an object are listed for all members together. Those on one declared member are
the violations of its last value, whatever else is wrong with the object, and if nothing is wrong
with the object, what it gives for the member is what this value gives.
-/

namespace AccessPolicy.Wire

open Json (Value)

/-- Whether a detail is about the member of a name, or about something within it. -/
def Detail.isOn (name : String) (detail : Detail) : Bool := detail.path.head? = some (.key name)

/-- What an outcome reports on the member of a name. -/
def Checked.reportedOn {α : Type} (name : String) : Checked α → List Detail
  | .ok _ => []
  | .error details => details.filter (Detail.isOn name)

/-- An outcome reports on a member what is wrong with it. -/
theorem Checked.Decides.reportedOn_eq {α : Type} {Gives : α → Prop} {details : List Detail}
    {checked : Checked α} (h : Decides Gives details checked) (name : String) :
    checked.reportedOn name = details.filter (Detail.isOn name) := by
  cases h with
  | value => rfl
  | details => rfl

namespace Schema

variable {fields : List (String × Schema)} {members : List (String × Value)} {name : String}

/-- What is wrong within a member is about its name. -/
private theorem filter_isOn_under (details : List Detail) :
    (details.map (Detail.under (.key name))).filter (Detail.isOn name) =
      details.map (Detail.under (.key name)) := by
  refine List.filter_eq_self.mpr fun detail hdetail => ?_
  obtain ⟨inner, _, rfl⟩ := List.mem_map.mp hdetail
  exact decide_eq_true rfl

/-- What is wrong within a member is not about any other name. -/
private theorem filter_isOn_under_of_ne {other : String} (h : other ≠ name)
    (details : List Detail) :
    (details.map (Detail.under (.key other))).filter (Detail.isOn name) = [] := by
  refine List.filter_eq_nil_iff.mpr fun detail hdetail => ?_
  obtain ⟨inner, _, rfl⟩ := List.mem_map.mp hdetail
  simp [Detail.isOn, Detail.under, h]

/-- Nothing is wrong on a member that is not among the declared ones. -/
private theorem filter_fieldViolations_of_notMem (h : name ∉ fields.map Prod.fst) :
    (fieldViolations fields members).filter (Detail.isOn name) = [] := by
  induction fields with
  | nil => rfl
  | cons field rest ih =>
    obtain ⟨other, schema⟩ := field
    rw [List.map_cons, List.mem_cons, not_or] at h
    rw [fieldViolations, List.filter_append, ih h.2, List.append_nil]
    cases Json.lastMember? other members with
    | none => rfl
    | some value =>
      rw [Option.toList_some, List.flatMap_singleton]
      exact filter_isOn_under_of_ne (Ne.symm h.1) _

/-- Of the violations of the declared members, those on one of them are those of its last value. -/
private theorem filter_fieldViolations (hnames : (fields.map Prod.fst).Nodup) {schema : Schema}
    (hfield : (name, schema) ∈ fields) {value : Value}
    (hlast : Json.lastMember? name members = some value) :
    (fieldViolations fields members).filter (Detail.isOn name) =
      (schema.violations value).map (Detail.under (.key name)) := by
  induction fields with
  | nil => cases hfield
  | cons field rest ih =>
    obtain ⟨other, found⟩ := field
    rw [List.map_cons, List.nodup_cons] at hnames
    rw [fieldViolations, List.filter_append]
    rcases List.mem_cons.mp hfield with heq | hrest
    · cases heq
      rw [hlast, Option.toList_some, List.flatMap_singleton, filter_isOn_under,
        filter_fieldViolations_of_notMem hnames.1, List.append_nil]
    · have hne : other ≠ name := by
        rintro rfl
        exact hnames.1 (List.mem_map.mpr ⟨_, hrest, rfl⟩)
      rw [ih hnames.2 hrest]
      cases Json.lastMember? other members with
      | none => rfl
      | some first =>
        rw [Option.toList_some, List.flatMap_singleton, filter_isOn_under_of_ne hne,
          List.nil_append]

/-- An undeclared member does not have a declared name. -/
private theorem filter_undeclared {declared : List String} (h : name ∈ declared) :
    (undeclared declared members).filter (Detail.isOn name) = [] := by
  refine List.filter_eq_nil_iff.mpr fun detail hdetail => ?_
  obtain ⟨other, _, hother, rfl⟩ := mem_undeclared_iff.mp hdetail
  have hne : other ≠ name := by
    rintro rfl
    exact hother h
  simp [Detail.isOn, hne]

end Schema

section Enforced

variable {α : Type} {fields : List (String × Schema)} {Gives : Value → α → Prop}
  {check : Value → Checked α} {name : String} {members : List (String × Value)} {value : Value}

/-- A check of objects reports on a declared member the violations of its last value. -/
theorem Enforces.reportedOn_eq (h : Enforces (.model fields) Gives check)
    (hnames : (fields.map Prod.fst).Nodup) {schema : Schema} (hfield : (name, schema) ∈ fields)
    (hlast : Json.lastMember? name members = some value) :
    (check (.object members)).reportedOn name =
      (schema.violations value).map (Detail.under (.key name)) := by
  rw [(h (.object members)).reportedOn_eq, Schema.violations, List.filter_append,
    Schema.filter_fieldViolations hnames hfield hlast,
    Schema.filter_undeclared (List.mem_map_of_mem (f := Prod.fst) hfield), List.append_nil]

/-- A check of objects reports on a declared member that is a plain value at most the cause for
which its last value is at fault. -/
theorem Enforces.reportedOn_plain (h : Enforces (.model fields) Gives check)
    (hnames : (fields.map Prod.fst).Nodup) {fault? : Value → Option Cause}
    (hfield : (name, .plain fault?) ∈ fields) (hlast : Json.lastMember? name members = some value) :
    (check (.object members)).reportedOn name =
      (fault? value).toList.map fun cause => ⟨cause, [.key name]⟩ := by
  rw [h.reportedOn_eq hnames hfield hlast, Schema.violations, List.map_map]
  rfl

/-- What an object gives for a member is what its last value gives. -/
theorem MemberGives.gives {missing result : α} (h : MemberGives name missing Gives members result)
    (hlast : Json.lastMember? name members = some value) : Gives value result := by
  rcases h with hnone | ⟨hsome, hgives⟩
  · rw [hlast] at hnone
    cases hnone
  · rw [hlast, Option.some.injEq] at hsome
    subst hsome
    exact hgives

end Enforced

end AccessPolicy.Wire
