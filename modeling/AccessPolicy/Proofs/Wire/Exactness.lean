import AccessPolicy.Proofs.Wire.Schema
import Mathlib.Data.List.Forall2

/-!
# Validation is exact

Which message a document gives, if any, is said field by field, apart from what is reported about a
document that gives none. Every check decides both at once: with nothing wrong there is exactly one
result, and otherwise there is none and all violations of the schema are reported in order. Each way
of putting checks together keeps this, so the check of a message has it.
-/

namespace AccessPolicy.Wire

open Json (Value)

/-! ## Checks that decide -/

/-- Whether an outcome decides which result there is, if `Gives` says which values are results and
`details` is all that is wrong. -/
inductive Checked.Decides {α : Type} (Gives : α → Prop) : List Detail → Checked α → Prop where
  /-- Nothing is wrong, and there is exactly one result. -/
  | value (value : α) (hvalue : ∀ other, Gives other ↔ other = value) : Decides Gives [] (.ok value)
  /-- Something is wrong, and there is no result. -/
  | details (details : List Detail) (hdetails : details ≠ []) (hnone : ∀ value, ¬Gives value) :
      Decides Gives details (.error details)

namespace Checked.Decides

variable {α β : Type} {Gives : α → Prop} {details : List Detail} {checked : Checked α}

/-- A value comes out exactly if it is a result. -/
theorem eq_ok_iff (h : Decides Gives details checked) (value : α) :
    checked = .ok value ↔ Gives value := by
  cases h with
  | value result hresult =>
    rw [hresult, eq_comm (a := value)]
    exact ⟨Except.ok.inj, congrArg Except.ok⟩
  | details details hdetails hnone =>
    constructor
    · intro hchecked
      cases hchecked
    · intro hgives
      exact absurd hgives (hnone value)

/-- Details come out exactly if something is wrong, and they are then all that is wrong. -/
theorem eq_error_iff (h : Decides Gives details checked) (reported : List Detail) :
    checked = .error reported ↔ reported ≠ [] ∧ reported = details := by
  cases h with
  | value result hresult =>
    constructor
    · intro hchecked
      cases hchecked
    · rintro ⟨hne, hnil⟩
      exact absurd hnil hne
  | details details hdetails hnone =>
    constructor
    · rintro ⟨⟩
      exact ⟨hdetails, rfl⟩
    · rintro ⟨_, rfl⟩
      rfl

/-- There is a result exactly if nothing is wrong. -/
theorem exists_eq_ok_iff (h : Decides Gives details checked) :
    (∃ value, checked = .ok value) ↔ details = [] := by
  cases h with
  | value result hresult => exact iff_of_true ⟨result, rfl⟩ rfl
  | details details hdetails hnone =>
    refine iff_of_false ?_ hdetails
    rintro ⟨_, ⟨⟩⟩

/-- Two outcomes together decide about both results. -/
theorem both {Others : β → Prop} {more : List Detail} {second : Checked β}
    (h : Decides Gives details checked) (hsecond : Decides Others more second) :
    Decides (fun pair : α × β => Gives pair.1 ∧ Others pair.2) (details ++ more)
      (checked.both second) := by
  cases h with
  | value result hresult =>
    cases hsecond with
    | value other hother =>
      refine .value (result, other) ?_
      intro pair
      rw [hresult, hother, Prod.ext_iff]
    | details _ hmore hnone => exact .details _ hmore fun pair hpair => hnone _ hpair.2
  | details details hdetails hnone =>
    have hboth : ∀ pair : α × β, ¬(Gives pair.1 ∧ Others pair.2) :=
      fun pair hpair => hnone _ hpair.1
    cases hsecond with
    | value other hother =>
      rw [List.append_nil]
      exact .details _ hdetails hboth
    | details _ hmore _ => exact .details _ (List.append_ne_nil_of_left_ne_nil hdetails _) hboth

/-- What is made of a result is decided along with it. -/
theorem map {Made : β → Prop} {f : α → β} (h : Decides Gives details checked)
    (hf : ∀ made, Made made ↔ ∃ value, Gives value ∧ f value = made) :
    Decides Made details (checked.map f) := by
  cases h with
  | value result hresult =>
    refine .value (f result) ?_
    intro other
    simp only [hf, hresult, exists_eq_left]
    exact eq_comm
  | details _ hdetails hnone =>
    refine .details _ hdetails ?_
    intro made hmade
    obtain ⟨value, hvalue, _⟩ := (hf made).mp hmade
    exact hnone value hvalue

/-- What is decided one level down is decided as seen from above. -/
theorem under (h : Decides Gives details checked) (step : Step) :
    Decides Gives (details.map (Detail.under step)) (checked.under step) := by
  cases h with
  | value result hresult => exact .value result hresult
  | details _ hdetails hnone => exact .details _ (mt List.map_eq_nil_iff.mp hdetails) hnone

end Checked.Decides

/-! ## Checks that enforce a schema -/

/-- Whether a check enforces a schema, if `Gives` says which values a document gives. -/
def Enforces {α : Type} (schema : Schema) (Gives : Value → α → Prop) (check : Value → Checked α) :
    Prop :=
  ∀ value, (check value).Decides (Gives value) (schema.violations value)

/-- The cause for which a check of a plain value fails. -/
def fault? {α : Type} (check : Value → Except Cause α) (value : Value) : Option Cause :=
  match check value with
  | .ok _ => none
  | .error cause => some cause

/-- What an array gives if its items give something each. -/
inductive ArrayGives {α : Type} (Gives : Value → α → Prop) : Value → List α → Prop where
  | intro {items : List Value} {values : List α} (hitems : List.Forall₂ Gives items values) :
      ArrayGives Gives (.array items) values

/-- What a value gives if null stands for nothing. -/
inductive OptionGives {α : Type} (Gives : Value → α → Prop) : Value → Option α → Prop where
  | null : OptionGives Gives .null none
  | given {value : Value} {result : α} (hvalue : value ≠ .null) (hgives : Gives value result) :
      OptionGives Gives value (some result)

/-- What the last member of a name gives, or the default if there is none. -/
inductive MemberGives {α : Type} (name : String) (missing : α) (Gives : Value → α → Prop)
    (members : List (String × Value)) : α → Prop where
  | missing (hmember : Json.lastMember? name members = none) :
      MemberGives name missing Gives members missing
  | given {value : Value} {result : α} (hmember : Json.lastMember? name members = some value)
      (hgives : Gives value result) : MemberGives name missing Gives members result

/-- What an object gives if its members give something together. -/
inductive ObjectGives {α : Type} (Gives : List (String × Value) → α → Prop) : Value → α → Prop where
  | intro {members : List (String × Value)} {result : α} (hmembers : Gives members result) :
      ObjectGives Gives (.object members) result

section Enforcement

variable {α : Type} {schema : Schema} {Gives : Value → α → Prop} {check : Value → Checked α}

/-- The check of a plain value is enforced. -/
theorem enforces_plain (check : Value → Except Cause α) :
    Enforces (.plain (fault? check)) (fun value result => check value = .ok result)
      (Checked.ofCause ∘ check) := by
  intro value
  rw [Schema.violations, fault?, Function.comp_apply]
  cases hcheck : check value with
  | ok result =>
    refine .value result ?_
    intro other
    simp only [hcheck, Except.ok.injEq, eq_comm]
  | error cause =>
    refine .details _ (List.cons_ne_nil _ _) ?_
    intro other hother
    rw [hcheck] at hother
    cases hother

/-- The items of an array are decided together from an index on. -/
private theorem decides_items (h : Enforces schema Gives check) (items : List Value)
    (index : Nat) :
    (Checked.items check index items).Decides (List.Forall₂ Gives items)
      ((items.zipIdx index).flatMap fun (value, index) =>
        (schema.violations value).map (Detail.under (.index index))) := by
  induction items generalizing index with
  | nil =>
    refine .value [] ?_
    intro other
    exact List.forall₂_nil_left_iff
  | cons item rest ih =>
    rw [Checked.items, List.zipIdx_cons, List.flatMap_cons]
    refine (((h item).under (.index index)).both (ih (index + 1))).map ?_
    intro made
    rw [List.forall₂_cons_left_iff]
    constructor
    · rintro ⟨first, others, hfirst, hothers, rfl⟩
      exact ⟨(first, others), ⟨hfirst, hothers⟩, rfl⟩
    · rintro ⟨⟨first, others⟩, ⟨hfirst, hothers⟩, rfl⟩
      exact ⟨first, others, hfirst, hothers, rfl⟩

/-- The check of an array is enforced along with that of its items. -/
theorem Enforces.array (h : Enforces schema Gives check) :
    Enforces (.list schema) (ArrayGives Gives) (array check) := by
  intro value
  cases value with
  | array items =>
    have hiff : ∀ values,
        ArrayGives Gives (.array items) values ↔ List.Forall₂ Gives items values :=
      fun values => ⟨fun ⟨hitems⟩ => hitems, .intro⟩
    have hitems := decides_items h items 0
    rw [Schema.violations, Wire.array]
    rwa [funext fun values => propext (hiff values)]
  | _ =>
    refine .details _ (List.cons_ne_nil _ _) ?_
    rintro _ ⟨⟩

/-- The check of a value that may be null is enforced along with that of what else it is. -/
theorem Enforces.option {checkOption : Value → Checked (Option α)}
    (h : Enforces schema Gives check) (hnull : checkOption .null = .ok none)
    (hvalue : ∀ value, value ≠ .null → checkOption value = (check value).map some) :
    Enforces (.nullable schema) (OptionGives Gives) checkOption := by
  intro value
  by_cases hne : value = .null
  · rw [hne, hnull]
    refine .value none ?_
    intro other
    constructor
    · rintro ⟨⟩
      · rfl
      · contradiction
    · rintro rfl
      exact .null
  · rw [hvalue value hne, Schema.violations_nullable_of_ne hne]
    refine (h value).map ?_
    intro made
    constructor
    · rintro ⟨⟩
      · contradiction
      · exact ⟨_, ‹_›, rfl⟩
    · rintro ⟨result, hresult, rfl⟩
      exact .given hne hresult

/-- The check of a declared member is decided along with that of its value. -/
theorem Enforces.member (h : Enforces schema Gives check) (name : String) (missing : α)
    (members : List (String × Value)) :
    (member name missing check members).Decides (MemberGives name missing Gives members)
      ((Json.lastMember? name members).toList.flatMap fun value =>
        (schema.violations value).map (Detail.under (.key name))) := by
  cases hmember : Json.lastMember? name members with
  | none =>
    rw [Wire.member, hmember]
    refine .value missing ?_
    intro other
    constructor
    · rintro (_ | ⟨hgiven, _⟩)
      · rfl
      · rw [hmember] at hgiven
        cases hgiven
    · rintro rfl
      exact .missing hmember
  | some value =>
    rw [Wire.member, hmember, Option.toList_some, List.flatMap_singleton]
    have hiff : ∀ other, MemberGives name missing Gives members other ↔ Gives value other := by
      intro other
      constructor
      · rintro (hmissing | ⟨hgiven, hgives⟩)
        · rw [hmember] at hmissing
          cases hmissing
        · rw [hmember] at hgiven
          cases hgiven
          exact hgives
      · exact .given hmember
    rw [funext fun other => propext (hiff other)]
    exact (h value).under (.key name)

/-- Whether all members are declared is decided. -/
theorem decides_onlyDeclared (declared : List String) (members : List (String × Value)) :
    (onlyDeclared declared members).Decides
      (fun _ => ∀ name ∈ members.map Prod.fst, name ∈ declared)
      (Schema.undeclared declared members) := by
  have hall : (∀ name ∈ members.map Prod.fst, name ∈ declared) ↔
      (members.filter fun member => !declared.contains member.1) = [] := by
    simp [List.filter_eq_nil_iff]
  have hextra : Schema.undeclared declared members =
      (members.filter fun member => !declared.contains member.1).map fun member =>
        ⟨.extraForbidden, [.key member.1]⟩ := by
    simp [Schema.undeclared, List.filter_map, Function.comp_def]
  rw [onlyDeclared, hextra]
  split
  · rename_i hnil
    change (members.filter fun member => !declared.contains member.1) = [] at hnil
    rw [hnil]
    exact .value () fun _ => iff_of_true (hall.mpr hnil) rfl
  · rename_i hne
    change ¬(members.filter fun member => !declared.contains member.1) = [] at hne
    exact .details _ (mt List.map_eq_nil_iff.mp hne) fun _ => mt hall.mp hne

/-- The check of an object is enforced along with that of its members. -/
theorem enforces_object {fields : List (String × Schema)}
    {Holds : List (String × Value) → α → Prop} {check : List (String × Value) → Checked α}
    (h : ∀ members, (check members).Decides (Holds members)
      (Schema.fieldViolations fields members ++
        Schema.undeclared (fields.map Prod.fst) members)) :
    Enforces (.model fields) (ObjectGives Holds) (object check) := by
  intro value
  cases value with
  | object members =>
    have hiff : ∀ result, ObjectGives Holds (.object members) result ↔ Holds members result :=
      fun result => ⟨fun ⟨hmembers⟩ => hmembers, .intro⟩
    rw [Schema.violations, object, funext fun result => propext (hiff result)]
    exact h members
  | _ =>
    refine .details _ (List.cons_ne_nil _ _) ?_
    rintro _ ⟨⟩

end Enforcement

/-! ## Messages -/

/-- What is expected of a text. -/
def textSchema : Schema := .plain (fault? textOf)

/-- What is expected of a condition. -/
def Condition.schema : Schema :=
  .model [("expression", textSchema), ("title", textSchema), ("description", textSchema),
    ("location", textSchema)]

/-- What is expected of a binding. -/
def Binding.schema : Schema :=
  .model [("role", textSchema), ("members", .list textSchema),
    ("condition", .nullable Condition.schema)]

/-- What is expected of a message. -/
def Message.schema : Schema :=
  .model [("version", .plain (fault? Version.ofValue)), ("bindings", .list Binding.schema),
    ("etag", .plain (fault? octetsOf))]

/-- The text that a value gives. -/
def TextGives (value : Value) (text : String) : Prop := textOf value = .ok text

/-- Whether members give a condition: each of its fields is given, and there are no others. -/
structure Condition.GivenBy (members : List (String × Value)) (condition : Condition) : Prop where
  expression : MemberGives "expression" "" TextGives members condition.expression
  title : MemberGives "title" "" TextGives members condition.title
  description : MemberGives "description" "" TextGives members condition.description
  location : MemberGives "location" "" TextGives members condition.location
  /-- There are declared members only. -/
  declared : ∀ name ∈ members.map Prod.fst,
    name ∈ ["expression", "title", "description", "location"]

/-- Whether members give a binding: each of its fields is given, and there are no others. -/
structure Binding.GivenBy (members : List (String × Value)) (binding : Binding) : Prop where
  role : MemberGives "role" "" TextGives members binding.role
  texts : MemberGives "members" [] (ArrayGives TextGives) members binding.members
  condition : MemberGives "condition" none (OptionGives (ObjectGives Condition.GivenBy)) members
    binding.condition
  /-- There are declared members only. -/
  declared : ∀ name ∈ members.map Prod.fst, name ∈ ["role", "members", "condition"]

/-- Whether members give a message: each of its fields is given, and there are no others. -/
structure Message.GivenBy (members : List (String × Value)) (message : Message) : Prop where
  version : MemberGives "version" 0 (fun value version => Version.ofValue value = .ok version)
    members message.version
  bindings : MemberGives "bindings" [] (ArrayGives (ObjectGives Binding.GivenBy)) members
    message.bindings
  etag : MemberGives "etag" [] (fun value octets => octetsOf value = .ok octets) members
    message.etag
  /-- There are declared members only. -/
  declared : ∀ name ∈ members.map Prod.fst, name ∈ ["version", "bindings", "etag"]

/-- The check of a text is enforced. -/
theorem enforces_checkText : Enforces textSchema TextGives checkText := enforces_plain textOf

/-- The check of a condition is enforced. -/
theorem Condition.enforces_ofValue :
    Enforces schema (ObjectGives GivenBy) ofValue := by
  refine enforces_object ?_
  intro members
  have hfields := ((((enforces_checkText.member "expression" "" members).both
    (enforces_checkText.member "title" "" members)).both
    (enforces_checkText.member "description" "" members)).both
    (enforces_checkText.member "location" "" members)).both
    (decides_onlyDeclared ["expression", "title", "description", "location"] members)
  simp only [List.append_assoc] at hfields
  simp only [Schema.fieldViolations, List.append_nil, List.append_assoc]
  refine hfields.map ?_
  intro condition
  constructor
  · intro h
    exact ⟨((((condition.expression, condition.title), condition.description),
      condition.location), ()),
      ⟨⟨⟨⟨h.expression, h.title⟩, h.description⟩, h.location⟩, h.declared⟩, rfl⟩
  · rintro ⟨_, ⟨⟨⟨⟨hexpression, htitle⟩, hdescription⟩, hlocation⟩, hdeclared⟩, rfl⟩
    exact ⟨hexpression, htitle, hdescription, hlocation, hdeclared⟩

/-- The check of a condition that may be absent is enforced. -/
theorem enforces_conditionOf :
    Enforces (.nullable Condition.schema) (OptionGives (ObjectGives Condition.GivenBy))
      conditionOf := by
  refine Condition.enforces_ofValue.option rfl ?_
  intro value hvalue
  cases value with
  | null => exact absurd rfl hvalue
  | _ => rfl

/-- The check of a binding is enforced. -/
theorem Binding.enforces_ofValue :
    Enforces schema (ObjectGives GivenBy) ofValue := by
  refine enforces_object ?_
  intro members
  have hfields := (((enforces_checkText.member "role" "" members).both
    (enforces_checkText.array.member "members" [] members)).both
    (enforces_conditionOf.member "condition" none members)).both
    (decides_onlyDeclared ["role", "members", "condition"] members)
  simp only [List.append_assoc] at hfields
  simp only [Schema.fieldViolations, List.append_nil, List.append_assoc]
  refine hfields.map ?_
  intro binding
  constructor
  · intro h
    exact ⟨(((binding.role, binding.members), binding.condition), ()),
      ⟨⟨⟨h.role, h.texts⟩, h.condition⟩, h.declared⟩, rfl⟩
  · rintro ⟨_, ⟨⟨⟨hrole, htexts⟩, hcondition⟩, hdeclared⟩, rfl⟩
    exact ⟨hrole, htexts, hcondition, hdeclared⟩

namespace Message

/-- The check of a message is enforced. -/
theorem enforces_ofValue : Enforces schema (ObjectGives GivenBy) ofValue := by
  refine enforces_object ?_
  intro members
  have hfields := ((((enforces_plain Version.ofValue).member "version" 0 members).both
    (Binding.enforces_ofValue.array.member "bindings" [] members)).both
    ((enforces_plain octetsOf).member "etag" [] members)).both
    (decides_onlyDeclared ["version", "bindings", "etag"] members)
  simp only [List.append_assoc] at hfields
  simp only [Schema.fieldViolations, List.append_nil, List.append_assoc]
  refine hfields.map ?_
  intro message
  constructor
  · intro h
    exact ⟨(((message.version, message.bindings), message.etag), ()),
      ⟨⟨⟨h.version, h.bindings⟩, h.etag⟩, h.declared⟩, rfl⟩
  · rintro ⟨_, ⟨⟨⟨hversion, hbindings⟩, hetag⟩, hdeclared⟩, rfl⟩
    exact ⟨hversion, hbindings, hetag, hdeclared⟩

/-- What holds of the rules and of the declared names of a message holds throughout its schema. -/
theorem each_schema {Rule : (Value → Option Cause) → Prop} {Names : List String → Prop}
    (htext : Rule (fault? textOf)) (hversion : Rule (fault? Version.ofValue))
    (hetag : Rule (fault? octetsOf))
    (hcondition : Names ["expression", "title", "description", "location"])
    (hbinding : Names ["role", "members", "condition"])
    (hmessage : Names ["version", "bindings", "etag"]) : schema.Each Rule Names := by
  have htexts : textSchema.Each Rule Names := .plain htext
  have hconditions : Condition.schema.Each Rule Names := by
    refine .model hcondition ?_
    simp only [List.forall_mem_cons]
    exact ⟨htexts, htexts, htexts, htexts, List.forall_mem_nil _⟩
  have hbindings : Binding.schema.Each Rule Names := by
    refine .model hbinding ?_
    simp only [List.forall_mem_cons]
    exact ⟨htexts, .list htexts, .nullable hconditions, List.forall_mem_nil _⟩
  refine .model hmessage ?_
  simp only [List.forall_mem_cons]
  exact ⟨.plain hversion, .list hbindings, .plain hetag, List.forall_mem_nil _⟩

/-- No object of a message declares a name twice. -/
theorem isProper_schema : schema.IsProper :=
  each_schema trivial trivial trivial (by decide) (by decide) (by decide)

/-- Validation accepts exactly the documents that violate nothing, as exactly the message that they
give, and reports of every other document all violations in order. Each detail leads to a place in
the document, and no two of them lead to the same place or one within the other, unless an object
repeats a name that is not declared. -/
theorem ofValue_exact (value : Value) :
    ((∃ message, ofValue value = .ok message) ↔ ∀ detail, ¬schema.Violates value detail) ∧
    (∀ message, ofValue value = .ok message ↔ ObjectGives GivenBy value message) ∧
    (∀ details, ofValue value = .error details ↔
      details ≠ [] ∧ details = schema.violations value) ∧
    (∀ detail, detail ∈ schema.violations value ↔ schema.Violates value detail) ∧
    (∀ detail, schema.Violates value detail →
      ∃ found, valueAt? detail.path value = some found) ∧
    (schema.violations value).Pairwise (Detail.Apart value) := by
  have hdecides := enforces_ofValue value
  refine ⟨?_, hdecides.eq_ok_iff, hdecides.eq_error_iff, fun _ => Schema.mem_violations_iff,
    fun _ => Schema.Violates.exists_valueAt?, isProper_schema.pairwise_violations value⟩
  rw [hdecides.exists_eq_ok_iff, List.eq_nil_iff_forall_not_mem]
  simp only [Schema.mem_violations_iff]

/-- A document with a violation at every level and an undeclared name that it repeats. -/
private def untidy : Value :=
  .object [("zone", .null), ("etag", .text "A"),
    ("bindings", .array [
      .object [("role", .integer 1), ("members", .array [.text "user:a", .null]),
        ("condition", .object [("kind", .text ""), ("title", .null)]),
        ("role", .text "roles/viewer")],
      .text "roles/viewer"]),
    ("version", .array [.null]), ("zone", .bool true)]

/-- All that the document violates. -/
private def untidyDetails : List Detail :=
  [⟨.intType, [.key "version"]⟩,
    ⟨.stringType, [.key "bindings", .index 0, .key "members", .index 1]⟩,
    ⟨.stringType, [.key "bindings", .index 0, .key "condition", .key "title"]⟩,
    ⟨.extraForbidden, [.key "bindings", .index 0, .key "condition", .key "kind"]⟩,
    ⟨.modelType, [.key "bindings", .index 1]⟩,
    ⟨.bytesInvalidEncoding, [.key "etag"]⟩,
    ⟨.extraForbidden, [.key "zone"]⟩, ⟨.extraForbidden, [.key "zone"]⟩]

/-- A document with a repeated name, of which the last member counts. -/
private def tidy : Value :=
  .object [("etag", .null), ("version", .text "+1.0"), ("etag", .text "QQ==")]

/-- Everything is reported of a document with many violations, and a document without any gives a
message. -/
theorem ofValue_exact_untidy :
    ofValue untidy = .error untidyDetails ∧
    (schema.Violates untidy ⟨.modelType, [.key "bindings", .index 1]⟩ ∧
      ∃ found, valueAt? [.key "bindings", .index 1] untidy = some found) ∧
    untidyDetails.Pairwise (Detail.Apart untidy) ∧
    (ofValue tidy = .ok ⟨1, [], [0x41]⟩ ∧ ObjectGives GivenBy tidy ⟨1, [], [0x41]⟩ ∧
      ∀ detail, ¬schema.Violates tidy detail) := by
  obtain ⟨_, _, hreported, hlisted, hplace, hapart⟩ := ofValue_exact untidy
  obtain ⟨hclean, hgiven, _⟩ := ofValue_exact tidy
  have hdetails : untidyDetails = schema.violations untidy := by decide +kernel
  have hviolates : schema.Violates untidy ⟨.modelType, [.key "bindings", .index 1]⟩ :=
    (hlisted _).mp (by decide +kernel)
  have htidy : ofValue tidy = .ok ⟨1, [], [0x41]⟩ := by decide +kernel
  refine ⟨?_, ⟨hviolates, hplace _ hviolates⟩, ?_, htidy, ?_, ?_⟩
  · exact (hreported _).mpr ⟨List.cons_ne_nil _ _, hdetails⟩
  · rw [hdetails]
    exact hapart
  · exact (hgiven _).mp htidy
  · exact hclean.mp ⟨_, htidy⟩

end Message

end AccessPolicy.Wire
