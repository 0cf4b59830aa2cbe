import AccessPolicy.Wire.Validation
import Mathlib.Data.List.Nodup

/-!
# Schemas

A schema says what is expected of a document. `Schema.Violates` says which details are justified,
place by place, and `Schema.violations` lists them in order; both are about the same details. Every
one of them leads to a place that is there, and no place is reported twice, nor is anything beneath
a place that is reported, unless an object repeats a name that is not declared.
-/

namespace AccessPolicy.Wire

open Json (Value)

/-- What is expected of a document. -/
inductive Schema where
  /-- A plain value, which may be at fault. -/
  | plain (fault? : Value → Option Cause)
  /-- An array with items that are all expected to be alike. -/
  | list (item : Schema)
  /-- Either null or what else is expected. -/
  | nullable (inner : Schema)
  /-- An object with declared members, each of which may be missing. -/
  | model (fields : List (String × Schema))

namespace Schema

mutual

/-- What holds of every schema of which it holds part by part holds of every schema. -/
@[induction_eliminator]
theorem induct {P : Schema → Prop} (plain : ∀ fault?, P (plain fault?))
    (list : ∀ item, P item → P (list item)) (nullable : ∀ inner, P inner → P (nullable inner))
    (model : ∀ fields, (∀ field ∈ fields, P field.2) → P (model fields)) : ∀ schema, P schema
  | .plain fault? => plain fault?
  | .list item => list item (induct plain list nullable model item)
  | .nullable inner => nullable inner (induct plain list nullable model inner)
  | .model fields => model fields (induct_fields plain list nullable model fields)

/-- It holds of the schemas of all fields. -/
theorem induct_fields {P : Schema → Prop} (plain : ∀ fault?, P (.plain fault?))
    (list : ∀ item, P item → P (.list item)) (nullable : ∀ inner, P inner → P (.nullable inner))
    (model : ∀ fields, (∀ field ∈ fields, P field.2) → P (.model fields)) :
    ∀ fields : List (String × Schema), ∀ field ∈ fields, P field.2
  | [] => List.forall_mem_nil _
  | (_, schema) :: rest => List.forall_mem_cons.mpr
      ⟨induct plain list nullable model schema, induct_fields plain list nullable model rest⟩

end

/-! ## Violations -/

/-- Whether a detail names a violation: the place of its path is expected to be something else than
it is, or is not expected at all. -/
inductive Violates : Schema → Value → Detail → Prop where
  /-- A plain value is at fault. -/
  | plain {fault? : Value → Option Cause} {value : Value} {cause : Cause}
      (hfault : fault? value = some cause) : Violates (plain fault?) value ⟨cause, []⟩
  /-- A value should be an array. -/
  | noArray {item : Schema} {value : Value} (hvalue : ∀ items, value ≠ .array items) :
      Violates (list item) value ⟨.listType, []⟩
  /-- Something is wrong within an item. -/
  | item {item : Schema} {items : List Value} {index : Nat} {value : Value} {detail : Detail}
      (hitem : items[index]? = some value) (hdetail : Violates item value detail) :
      Violates (list item) (.array items) (detail.under (.index index))
  /-- Something is wrong with a value that is not null. -/
  | nullable {inner : Schema} {value : Value} {detail : Detail} (hvalue : value ≠ .null)
      (hdetail : Violates inner value detail) : Violates (nullable inner) value detail
  /-- A value should be an object. -/
  | noObject {fields : List (String × Schema)} {value : Value}
      (hvalue : ∀ members, value ≠ .object members) :
      Violates (model fields) value ⟨.modelType, []⟩
  /-- Something is wrong within the last member of a declared name. -/
  | field {fields : List (String × Schema)} {members : List (String × Value)} {name : String}
      {schema : Schema} {value : Value} {detail : Detail} (hfield : (name, schema) ∈ fields)
      (hmember : Json.lastMember? name members = some value)
      (hdetail : Violates schema value detail) :
      Violates (model fields) (.object members) (detail.under (.key name))
  /-- A member is not declared. -/
  | undeclared {fields : List (String × Schema)} {members : List (String × Value)} {name : String}
      (hmember : name ∈ members.map Prod.fst) (hname : name ∉ fields.map Prod.fst) :
      Violates (model fields) (.object members) ⟨.extraForbidden, [.key name]⟩

/-- One detail for each member of an object that is not declared, in the order of the members. -/
def undeclared (declared : List String) (members : List (String × Value)) : List Detail :=
  ((members.map Prod.fst).filter (· ∉ declared)).map fun name => ⟨.extraForbidden, [.key name]⟩

mutual

/-- The violations of a schema in order: what is wrong within the items of an array by their index,
and of an object first what is wrong within the declared members by their declaration, and then the
members that are not declared. -/
def violations : Schema → Value → List Detail
  | plain fault?, value => (fault? value).toList.map (⟨·, []⟩)
  | list item, .array items =>
    items.zipIdx.flatMap fun (value, index) =>
      (item.violations value).map (Detail.under (.index index))
  | list _, _ => [⟨.listType, []⟩]
  | nullable _, .null => []
  | nullable inner, value => inner.violations value
  | model fields, .object members =>
    fieldViolations fields members ++ undeclared (fields.map Prod.fst) members
  | model _, _ => [⟨.modelType, []⟩]

/-- The violations of the declared members of an object. -/
def fieldViolations : List (String × Schema) → List (String × Value) → List Detail
  | [], _ => []
  | (name, schema) :: rest, members =>
    ((Json.lastMember? name members).toList.flatMap fun value =>
      (schema.violations value).map (Detail.under (.key name))) ++ fieldViolations rest members

end

/-- The violations of the declared members, field by field. -/
theorem fieldViolations_eq (fields : List (String × Schema)) (members : List (String × Value)) :
    fieldViolations fields members = fields.flatMap fun field =>
      (Json.lastMember? field.1 members).toList.flatMap fun value =>
        (field.2.violations value).map (Detail.under (.key field.1)) := by
  induction fields with
  | nil => rfl
  | cons field rest ih => rw [fieldViolations, ih, List.flatMap_cons]

/-- The details of undeclared members are about names that occur and are not declared. -/
theorem mem_undeclared_iff {declared : List String} {members : List (String × Value)}
    {detail : Detail} :
    detail ∈ undeclared declared members ↔ ∃ name, name ∈ members.map Prod.fst ∧
      name ∉ declared ∧ detail = ⟨.extraForbidden, [.key name]⟩ := by
  simp only [undeclared, List.mem_map (f := fun name => (⟨.extraForbidden, [.key name]⟩ : Detail)),
    List.mem_filter, decide_eq_true_eq, and_assoc, eq_comm (a := detail)]

/-- A value that is no array is reported as such. -/
theorem violations_list_of_ne {item : Schema} {value : Value} (h : ∀ items, value ≠ .array items) :
    (list item).violations value = [⟨.listType, []⟩] := by
  cases value with
  | array items => exact absurd rfl (h items)
  | _ => rfl

/-- A value that is not null is treated as what else is expected. -/
theorem violations_nullable_of_ne {inner : Schema} {value : Value} (h : value ≠ .null) :
    (nullable inner).violations value = inner.violations value := by
  cases value with
  | null => exact absurd rfl h
  | _ => rfl

/-- A value that is no object is reported as such. -/
theorem violations_model_of_ne {fields : List (String × Schema)} {value : Value}
    (h : ∀ members, value ≠ .object members) :
    (model fields).violations value = [⟨.modelType, []⟩] := by
  cases value with
  | object members => exact absurd rfl (h members)
  | _ => rfl

/-- Every violation is listed. -/
theorem Violates.mem {schema : Schema} {value : Value} {detail : Detail}
    (h : Violates schema value detail) : detail ∈ schema.violations value := by
  induction h with
  | plain hfault =>
    rw [violations, hfault]
    exact List.mem_singleton_self _
  | noArray hvalue =>
    rw [violations_list_of_ne hvalue]
    exact List.mem_singleton_self _
  | item hitem _ ih =>
    rw [violations]
    exact List.mem_flatMap_of_mem (List.mk_mem_zipIdx_iff_getElem?.mpr hitem)
      (List.mem_map_of_mem ih)
  | nullable hvalue _ ih =>
    rw [violations_nullable_of_ne hvalue]
    exact ih
  | noObject hvalue =>
    rw [violations_model_of_ne hvalue]
    exact List.mem_singleton_self _
  | field hfield hmember _ ih =>
    rw [violations, fieldViolations_eq]
    refine List.mem_append_left _ (List.mem_flatMap_of_mem hfield ?_)
    exact List.mem_flatMap_of_mem (Option.mem_toList.mpr hmember) (List.mem_map_of_mem ih)
  | undeclared hmember hname =>
    rw [violations]
    exact List.mem_append_right _ (mem_undeclared_iff.mpr ⟨_, hmember, hname, rfl⟩)

/-- Only violations are listed. -/
theorem violates_of_mem {schema : Schema} {value : Value} {detail : Detail}
    (h : detail ∈ schema.violations value) : Violates schema value detail := by
  induction schema generalizing value detail with
  | plain fault? =>
    obtain ⟨cause, hcause, rfl⟩ := List.mem_map.mp h
    exact .plain (Option.mem_toList.mp hcause)
  | list item ih =>
    by_cases hvalue : ∃ items, value = .array items
    · obtain ⟨items, rfl⟩ := hvalue
      rw [violations] at h
      obtain ⟨⟨found, index⟩, hfound, hdetail⟩ := List.mem_flatMap.mp h
      obtain ⟨inner, hinner, rfl⟩ := List.mem_map.mp hdetail
      exact .item (List.mk_mem_zipIdx_iff_getElem?.mp hfound) (ih hinner)
    · rw [not_exists] at hvalue
      rw [violations_list_of_ne hvalue] at h
      rw [List.mem_singleton.mp h]
      exact .noArray hvalue
  | nullable inner ih =>
    by_cases hvalue : value = .null
    · rw [hvalue] at h
      cases h
    · rw [violations_nullable_of_ne hvalue] at h
      exact .nullable hvalue (ih h)
  | model fields ih =>
    by_cases hvalue : ∃ members, value = .object members
    · obtain ⟨members, rfl⟩ := hvalue
      rw [violations, fieldViolations_eq] at h
      rcases List.mem_append.mp h with h | h
      · obtain ⟨⟨name, schema⟩, hfield, h⟩ := List.mem_flatMap.mp h
        obtain ⟨found, hfound, h⟩ := List.mem_flatMap.mp h
        obtain ⟨inner, hinner, rfl⟩ := List.mem_map.mp h
        exact .field hfield (Option.mem_toList.mp hfound) (ih _ hfield hinner)
      · obtain ⟨name, hmember, hname, rfl⟩ := mem_undeclared_iff.mp h
        exact .undeclared hmember hname
    · rw [not_exists] at hvalue
      rw [violations_model_of_ne hvalue] at h
      rw [List.mem_singleton.mp h]
      exact .noObject hvalue

/-- The violations of a schema are those that are listed. -/
theorem mem_violations_iff {schema : Schema} {value : Value} {detail : Detail} :
    detail ∈ schema.violations value ↔ Violates schema value detail :=
  ⟨violates_of_mem, Violates.mem⟩

end Schema

/-! ## Places -/

/-- The value that a path leads to. Of a repeated member the last is meant. -/
def valueAt? : List Step → Value → Option Value
  | [], value => some value
  | .key name :: path, .object members => (Json.lastMember? name members).bind (valueAt? path)
  | .index index :: path, .array items => items[index]?.bind (valueAt? path)
  | _, _ => none

/-- A path leads to a value exactly if its first step does and the others do from there. -/
theorem valueAt?_cons (step : Step) (path : List Step) (value : Value) :
    valueAt? (step :: path) value = (valueAt? [step] value).bind (valueAt? path) := by
  cases step <;> cases value <;> simp [valueAt?]

/-- A name that occurs has a last member. -/
theorem exists_lastMember? {name : String} {members : List (String × Value)}
    (h : name ∈ members.map Prod.fst) : ∃ value, Json.lastMember? name members = some value := by
  obtain ⟨member, hmember, rfl⟩ := List.mem_map.mp h
  exact Option.isSome_iff_exists.mp (List.lookup_isSome_iff.mpr
    ⟨member, List.mem_reverse.mpr hmember, beq_self_eq_true _⟩)

/-- The place of a violation is there. -/
theorem Schema.Violates.exists_valueAt? {schema : Schema} {value : Value} {detail : Detail}
    (h : schema.Violates value detail) : ∃ found, valueAt? detail.path value = some found := by
  induction h with
  | plain _ | noArray _ | noObject _ => exact ⟨_, rfl⟩
  | nullable _ _ ih => exact ih
  | item hitem _ ih =>
    obtain ⟨found, hfound⟩ := ih
    refine ⟨found, ?_⟩
    rw [Detail.under, valueAt?, hitem]
    exact hfound
  | field _ hmember _ ih =>
    obtain ⟨found, hfound⟩ := ih
    refine ⟨found, ?_⟩
    rw [Detail.under, valueAt?, hmember]
    exact hfound
  | undeclared hmember _ =>
    obtain ⟨found, hfound⟩ := exists_lastMember? hmember
    refine ⟨found, ?_⟩
    rw [valueAt?, hfound]
    rfl

/-- Whether a detail is about an undeclared member whose name occurs again in its object. -/
inductive Detail.IsRepeated (value : Value) : Detail → Prop where
  | intro (path : List Step) (members : List (String × Value)) (name : String)
      (hobject : valueAt? path value = some (.object members))
      (hcount : 2 ≤ (members.map Prod.fst).count name) :
      IsRepeated value ⟨.extraForbidden, path ++ [.key name]⟩

/-- Whether two details are about places neither of which is, or is within, the other, unless both
are about the same repeated name. -/
def Detail.Apart (value : Value) (first second : Detail) : Prop :=
  first.path <+: second.path ∨ second.path <+: first.path →
    first = second ∧ first.IsRepeated value

namespace Detail

variable {value inner : Value} {step other : Step} {first second : Detail}

/-- A repeated name is repeated as seen from one level higher up. -/
theorem IsRepeated.under (hstep : valueAt? [step] value = some inner)
    (h : first.IsRepeated inner) : (first.under step).IsRepeated value := by
  obtain ⟨path, members, name, hobject, hcount⟩ := h
  refine .intro (step :: path) members name ?_ hcount
  rw [valueAt?_cons, hstep]
  exact hobject

/-- Details that are apart are so as seen from one level higher up. -/
theorem Apart.under (hstep : valueAt? [step] value = some inner) (h : first.Apart inner second) :
    (first.under step).Apart value (second.under step) := by
  intro hprefix
  simp only [Detail.under, List.cons_prefix_cons, true_and] at hprefix
  obtain ⟨rfl, hrepeated⟩ := h hprefix
  exact ⟨rfl, hrepeated.under hstep⟩

/-- Details from different places one level down are apart. -/
theorem apart_under_of_ne (h : step ≠ other) :
    (first.under step).Apart value (second.under other) := by
  intro hprefix
  simp only [Detail.under, List.cons_prefix_cons, h, h.symm, false_and, or_self] at hprefix

end Detail

/-- Whether every rule for plain values in a schema, and the names that each of its objects
declares, are as demanded. -/
inductive Schema.Each (Rule : (Value → Option Cause) → Prop) (Names : List String → Prop) :
    Schema → Prop where
  | plain {fault? : Value → Option Cause} (hfault : Rule fault?) : Each Rule Names (.plain fault?)
  | list {item : Schema} (hitem : Each Rule Names item) : Each Rule Names (.list item)
  | nullable {inner : Schema} (hinner : Each Rule Names inner) : Each Rule Names (.nullable inner)
  | model {fields : List (String × Schema)} (hnames : Names (fields.map Prod.fst))
      (hfields : ∀ field ∈ fields, Each Rule Names field.2) : Each Rule Names (.model fields)

/-- Whether no object of a schema declares a name twice. -/
def Schema.IsProper : Schema → Prop := Schema.Each (fun _ => True) List.Nodup

namespace Schema

/-- Undeclared members of different names are apart, and of the same name repeat it. -/
theorem pairwise_undeclared (declared : List String) (members : List (String × Value)) :
    (undeclared declared members).Pairwise (Detail.Apart (.object members)) := by
  rw [undeclared, List.pairwise_map, List.pairwise_iff_forall_sublist]
  intro name other hsub hprefix
  have hname : name = other := by
    simpa [List.cons_prefix_cons, eq_comm] using hprefix
  subst hname
  have hcount : 2 ≤ (members.map Prod.fst).count name :=
    List.replicate_sublist_iff.mp (hsub.trans List.filter_sublist)
  exact ⟨rfl, .intro [] members name rfl hcount⟩

/-- The violations of a declared member are about its name. -/
private theorem exists_of_mem_fieldViolations {fields : List (String × Schema)}
    {members : List (String × Value)} {detail : Detail}
    (h : detail ∈ fieldViolations fields members) :
    ∃ name ∈ fields.map Prod.fst, ∃ inner : Detail, detail = inner.under (.key name) := by
  rw [fieldViolations_eq] at h
  obtain ⟨⟨name, schema⟩, hfield, h⟩ := List.mem_flatMap.mp h
  obtain ⟨_, _, h⟩ := List.mem_flatMap.mp h
  obtain ⟨inner, _, rfl⟩ := List.mem_map.mp h
  exact ⟨name, List.mem_map_of_mem hfield, inner, rfl⟩

/-- If the violations of the items are apart, so are those of the array. -/
private theorem pairwise_violations_array {item : Schema}
    (h : ∀ value, (item.violations value).Pairwise (Detail.Apart value)) (items : List Value) :
    ((list item).violations (.array items)).Pairwise (Detail.Apart (.array items)) := by
  have hindexes : items.zipIdx.Pairwise fun first second => first.2 ≠ second.2 := by
    rw [← List.pairwise_map (f := Prod.snd), List.zipIdx_map_snd]
    exact List.nodup_range' 1
  rw [violations, List.pairwise_flatMap]
  refine ⟨?_, hindexes.imp ?_⟩
  · rintro ⟨value, index⟩ hvalue
    have hstep : valueAt? [.index index] (.array items) = some value := by
      rw [valueAt?, List.mk_mem_zipIdx_iff_getElem?.mp hvalue]
      rfl
    exact List.pairwise_map.mpr ((h value).imp (Detail.Apart.under hstep))
  · rintro ⟨_, index⟩ ⟨_, next⟩ hne _ hfirst _ hsecond
    obtain ⟨_, _, rfl⟩ := List.mem_map.mp hfirst
    obtain ⟨_, _, rfl⟩ := List.mem_map.mp hsecond
    exact Detail.apart_under_of_ne (mt Step.index.inj hne)

/-- If the violations of the fields are apart, so are those of all declared members together. -/
private theorem pairwise_fieldViolations {fields : List (String × Schema)}
    (hnames : (fields.map Prod.fst).Nodup)
    (h : ∀ field ∈ fields, ∀ value, (field.2.violations value).Pairwise (Detail.Apart value))
    (members : List (String × Value)) :
    (fieldViolations fields members).Pairwise (Detail.Apart (.object members)) := by
  rw [fieldViolations_eq, List.pairwise_flatMap]
  refine ⟨?_, (List.pairwise_map.mp hnames).imp ?_⟩
  · intro field hfield
    cases hmember : Json.lastMember? field.1 members with
    | none => exact .nil
    | some value =>
      have hstep : valueAt? [.key field.1] (.object members) = some value := by
        rw [valueAt?, hmember]
        rfl
      rw [Option.toList_some, List.flatMap_singleton]
      exact List.pairwise_map.mpr ((h field hfield value).imp (Detail.Apart.under hstep))
  · intro field other hne _ hfirst _ hsecond
    obtain ⟨_, _, hfirst⟩ := List.mem_flatMap.mp hfirst
    obtain ⟨_, _, rfl⟩ := List.mem_map.mp hfirst
    obtain ⟨_, _, hsecond⟩ := List.mem_flatMap.mp hsecond
    obtain ⟨_, _, rfl⟩ := List.mem_map.mp hsecond
    exact Detail.apart_under_of_ne (mt Step.key.inj hne)

/-- The violations of a proper schema are about places apart. -/
theorem IsProper.pairwise_violations {schema : Schema} (h : schema.IsProper) (value : Value) :
    (schema.violations value).Pairwise (Detail.Apart value) := by
  induction h generalizing value with
  | @plain fault? _ =>
    rw [violations]
    cases fault? value with
    | none => exact .nil
    | some cause => exact List.pairwise_singleton _ _
  | list _ ih =>
    by_cases hvalue : ∃ items, value = .array items
    · obtain ⟨items, rfl⟩ := hvalue
      exact pairwise_violations_array ih items
    · rw [violations_list_of_ne (not_exists.mp hvalue)]
      exact List.pairwise_singleton _ _
  | nullable _ ih =>
    by_cases hvalue : value = .null
    · rw [hvalue]
      exact .nil
    · rw [violations_nullable_of_ne hvalue]
      exact ih value
  | model hnames _ ih =>
    by_cases hvalue : ∃ members, value = .object members
    · obtain ⟨members, rfl⟩ := hvalue
      rw [violations, List.pairwise_append]
      refine ⟨pairwise_fieldViolations hnames ih members, pairwise_undeclared _ members, ?_⟩
      -- A declared member and an undeclared one have different names.
      intro first hfirst second hsecond
      obtain ⟨name, hname, inner, rfl⟩ := exists_of_mem_fieldViolations hfirst
      obtain ⟨other, _, hother, rfl⟩ := mem_undeclared_iff.mp hsecond
      have hne : Step.key name ≠ .key other := by
        rintro ⟨⟩
        exact hother hname
      have happart : (inner.under (.key name)).Apart (.object members)
          (Detail.under (.key other) ⟨.extraForbidden, []⟩) := Detail.apart_under_of_ne hne
      exact happart
    · rw [violations_model_of_ne (not_exists.mp hvalue)]
      exact List.pairwise_singleton _ _

end Schema

end AccessPolicy.Wire
