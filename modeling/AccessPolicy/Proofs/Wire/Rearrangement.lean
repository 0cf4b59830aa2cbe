import AccessPolicy.Proofs.Json.Spellable
import AccessPolicy.Proofs.Wire.Payloads
import AccessPolicy.Proofs.Wire.Shuffled
import Mathlib.Logic.Relation

/-!
# Rearranged documents

The members of an object may be put in another order, and members of a declared name may be dropped
where another of the name follows. As long as the same value stays the last one of every declared
name, validation gives the same message or reports shuffled details. This holds at every level of a
document, and for any number of such rearrangements.
-/

namespace AccessPolicy.Wire

open Json (Value)
open Json.Grammar (Document)

/-- A rearrangement in one of the objects that a schema expects in a document. -/
inductive Rearranges : Schema → Value → Value → Prop where
  /-- The members of an object are put in another order that leaves the last ones of the declared
  names last. -/
  | reorder {fields : List (String × Schema)} {members members' : List (String × Value)}
      (hperm : members.Perm members') (hlast : ∀ name ∈ fields.map Prod.fst,
        Json.lastMember? name members = Json.lastMember? name members') :
      Rearranges (.model fields) (.object members) (.object members')
  /-- A member of a declared name is dropped if another of the name follows. -/
  | drop {fields : List (String × Schema)} {before after : List (String × Value)} {name : String}
      {value : Value} (hname : name ∈ fields.map Prod.fst) (hlater : name ∈ after.map Prod.fst) :
      Rearranges (.model fields) (.object (before ++ (name, value) :: after))
        (.object (before ++ after))
  /-- The value of a declared name is rearranged. -/
  | field {fields : List (String × Schema)} {before after : List (String × Value)} {name : String}
      {schema : Schema} {value value' : Value} (hfield : (name, schema) ∈ fields)
      (hvalue : Rearranges schema value value') :
      Rearranges (.model fields) (.object (before ++ (name, value) :: after))
        (.object (before ++ (name, value') :: after))
  /-- An item of an array is rearranged. -/
  | item {schema : Schema} {before after : List Value} {value value' : Value}
      (hvalue : Rearranges schema value value') :
      Rearranges (.list schema) (.array (before ++ value :: after))
        (.array (before ++ value' :: after))
  /-- A value that may be null is rearranged. -/
  | nullable {schema : Schema} {value value' : Value} (hvalue : Rearranges schema value value') :
      Rearranges (.nullable schema) value value'

/-- A document that is rearranged can be spelled within the same limits. -/
theorem Rearranges.spellable {limits : Json.Limits} {schema : Schema} {value value' : Value}
    (h : Rearranges schema value value') {depth : Nat} (hvalue : value.Spellable limits depth) :
    value'.Spellable limits depth := by
  induction h generalizing depth with
  | reorder hperm _ =>
    rw [Value.spellable_object_iff] at hvalue ⊢
    rcases hvalue with rfl | ⟨inner, rfl, hmembers⟩
    · exact .inl hperm.nil_eq.symm
    · exact .inr ⟨inner, rfl, fun member hmember => hmembers member (hperm.mem_iff.mpr hmember)⟩
  | drop _ _ =>
    rw [Value.spellable_object_iff] at hvalue ⊢
    obtain ⟨inner, rfl, hmembers⟩ := hvalue.resolve_left (by simp)
    simp only [List.forall_mem_append, List.forall_mem_cons] at hmembers ⊢
    exact .inr ⟨inner, rfl, hmembers.1, hmembers.2.2⟩
  | field _ _ ih =>
    rw [Value.spellable_object_iff] at hvalue ⊢
    obtain ⟨inner, rfl, hmembers⟩ := hvalue.resolve_left (by simp)
    simp only [List.forall_mem_append, List.forall_mem_cons] at hmembers ⊢
    exact .inr ⟨inner, rfl, hmembers.1, ih hmembers.2.1, hmembers.2.2⟩
  | item _ ih =>
    rw [Value.spellable_array_iff] at hvalue ⊢
    obtain ⟨inner, rfl, hitems⟩ := hvalue.resolve_left (by simp)
    simp only [List.forall_mem_append, List.forall_mem_cons] at hitems ⊢
    exact .inr ⟨inner, rfl, hitems.1, ih hitems.2.1, hitems.2.2⟩
  | nullable _ ih => exact ih hvalue

/-! ## Last members -/

/-- What becomes of the last value of a name: it stays or is rearranged. -/
inductive LastRearranges (schema : Schema) : Option Value → Option Value → Prop where
  | same (last : Option Value) : LastRearranges schema last last
  | rearranged {value value' : Value} (h : Rearranges schema value value') :
      LastRearranges schema (some value) (some value')

section Members

variable {name other : String} {value : Value} {before after : List (String × Value)}

/-- The last member of a name is behind if there is one, and else in front. -/
private theorem lastMember?_append (name : String) (before after : List (String × Value)) :
    Json.lastMember? name (before ++ after) =
      (Json.lastMember? name after).or (Json.lastMember? name before) := by
  rw [Json.lastMember?, List.reverse_append, List.lookup_append]
  rfl

/-- A member does not matter for another name. -/
private theorem lastMember?_of_ne (h : name ≠ other) :
    Json.lastMember? name (before ++ (other, value) :: after) =
      Json.lastMember? name (before ++ after) := by
  have hmember : Json.lastMember? name [(other, value)] = none :=
    List.lookup_eq_none_iff.mpr (List.forall_mem_singleton.mpr (bne_iff_ne.mpr h))
  rw [← List.singleton_append, lastMember?_append, lastMember?_append, hmember, Option.or_none,
    ← lastMember?_append]

/-- A member does not matter if another of the name follows. -/
private theorem lastMember?_of_later (h : name ∈ after.map Prod.fst) :
    Json.lastMember? name (before ++ after) = Json.lastMember? name after := by
  obtain ⟨last, hlast⟩ := exists_lastMember? h
  rw [lastMember?_append, hlast, Option.some_or]

/-- A member is the last one if no other of the name follows. -/
private theorem lastMember?_of_not_later (h : name ∉ after.map Prod.fst) :
    Json.lastMember? name (before ++ (name, value) :: after) = some value := by
  have hnone : Json.lastMember? name after = none := by
    refine List.lookup_eq_none_iff.mpr fun member hmember => ?_
    simp only [bne_iff_ne]
    rintro rfl
    exact h (List.mem_map_of_mem (List.mem_reverse.mp hmember))
  have hmember : Json.lastMember? name [(name, value)] = some value := by
    simp [Json.lastMember?]
  rw [← List.singleton_append, lastMember?_append, lastMember?_append, hnone, hmember]
  rfl

variable {fields : List (String × Schema)} {schema : Schema}
  {members members' : List (String × Value)}

/-- A rearrangement of an object rearranges at most the last value of a declared name. -/
private theorem lastRearranges_of_rearranges (hnames : (fields.map Prod.fst).Nodup)
    (h : Rearranges (.model fields) (.object members) (.object members'))
    (hfield : (name, schema) ∈ fields) : LastRearranges schema (Json.lastMember? name members)
      (Json.lastMember? name members') := by
  have hname : name ∈ fields.map Prod.fst := List.mem_map_of_mem (f := Prod.fst) hfield
  cases h with
  | reorder _ hlast =>
    rw [hlast name hname]
    exact .same _
  | @drop _ before after other value hother hlater =>
    by_cases heq : name = other
    · subst heq
      rw [List.append_cons, lastMember?_of_later hlater, lastMember?_of_later hlater]
      exact .same _
    · rw [lastMember?_of_ne heq]
      exact .same _
  | @field _ before after other inner value value' hother hvalue =>
    by_cases heq : name = other
    · subst heq
      by_cases hlater : name ∈ after.map Prod.fst
      · rw [List.append_cons, lastMember?_of_later hlater, List.append_cons,
          lastMember?_of_later hlater]
        exact .same _
      · rw [lastMember?_of_not_later hlater, lastMember?_of_not_later hlater]
        cases List.inj_on_of_nodup_map hnames hfield hother rfl
        exact .rearranged hvalue
    · rw [lastMember?_of_ne heq, lastMember?_of_ne heq]
      exact .same _

/-- A rearrangement of an object shuffles the details on its undeclared members. -/
private theorem shuffled_undeclared
    (h : Rearranges (.model fields) (.object members) (.object members')) :
    Shuffled (Schema.undeclared (fields.map Prod.fst) members)
      (Schema.undeclared (fields.map Prod.fst) members') := by
  cases h with
  | reorder hperm _ =>
    exact .undeclared [] ((hperm.map Prod.fst).filter _)
  | drop hother _ =>
    simp only [Schema.undeclared, List.map_append, List.map_cons, List.filter_append]
    rw [List.filter_cons_of_neg (by simpa using hother)]
    exact .refl _
  | field _ _ =>
    simp only [Schema.undeclared, List.map_append, List.map_cons]
    exact .refl _

end Members

/-! ## Checks -/

/-- Whether a check has outcomes that are alike for documents that are rearranged. -/
def Respects {α : Type} (schema : Schema) (check : Value → Checked α) : Prop :=
  ∀ value value', Rearranges schema value value' → (check value).Alike (check value')

section Checks

variable {α : Type} {schema : Schema} {check : Value → Checked α}

/-- There is nothing to rearrange in a plain value. -/
theorem respects_plain (fault? : Value → Option Cause) (check : Value → Checked α) :
    Respects (.plain fault?) check := by
  rintro _ _ ⟨⟩

/-- The check of an array respects rearrangements along with that of its items. -/
theorem Respects.array (h : Respects schema check) : Respects (.list schema) (array check) := by
  have hsame : ∀ items : List Value, List.Forall₂
      (fun item item' => (check item).Alike (check item')) items items :=
    fun items => List.forall₂_same.mpr fun item _ => .refl (check item)
  intro _ _ harray
  cases harray with
  | @item _ before after value value' hvalue =>
    refine .items ?_ 0
    exact List.rel_append (hsame before) (.cons (h value value' hvalue) (hsame after))

/-- Null is not rearranged. -/
private theorem Rearranges.ne_null {value value' : Value} (h : Rearranges schema value value') :
    value ≠ .null ∧ value' ≠ .null := by
  induction h with
  | nullable _ ih => exact ih
  | _ => exact ⟨Value.noConfusion, Value.noConfusion⟩

/-- The check of a value that may be null respects rearrangements along with that of what else it
is. -/
theorem Respects.option {checkOption : Value → Checked (Option α)} (h : Respects schema check)
    (hvalue : ∀ value, value ≠ .null → checkOption value = (check value).map some) :
    Respects (.nullable schema) checkOption := by
  intro value value' hoption
  cases hoption with
  | nullable hinner =>
    obtain ⟨hne, hne'⟩ := hinner.ne_null
    rw [hvalue value hne, hvalue value' hne']
    exact (h value value' hinner).map some

/-- The check of a declared member respects rearrangements along with that of its value. -/
theorem Respects.member (h : Respects schema check) {name : String} (missing : α)
    {members members' : List (String × Value)}
    (hlast : LastRearranges schema (Json.lastMember? name members)
      (Json.lastMember? name members')) :
    (member name missing check members).Alike (member name missing check members') := by
  rw [Wire.member, Wire.member]
  generalize Json.lastMember? name members = last at hlast
  generalize Json.lastMember? name members' = last' at hlast
  cases hlast with
  | same last => exact .refl _
  | rearranged hvalue => exact (h _ _ hvalue).under (.key name)

/-- Whether there are undeclared members is alike if the details on them are shuffled. -/
private theorem alike_onlyDeclared {declared : List String}
    {members members' : List (String × Value)}
    (h : Shuffled (Schema.undeclared declared members) (Schema.undeclared declared members')) :
    (onlyDeclared declared members).Alike (onlyDeclared declared members') := by
  have hfirst := decides_onlyDeclared declared members
  have hsecond := decides_onlyDeclared declared members'
  generalize onlyDeclared declared members = outcome at hfirst
  generalize onlyDeclared declared members' = outcome' at hsecond
  generalize Schema.undeclared declared members = details at h hfirst
  generalize Schema.undeclared declared members' = details' at h hsecond
  cases hfirst with
  | value _ _ =>
    cases hsecond with
    | value _ _ => exact .value ()
    | details _ hdetails _ => exact absurd (h.eq_nil_iff.mp rfl) hdetails
  | details _ hdetails _ =>
    cases hsecond with
    | value _ _ => exact absurd (h.eq_nil_iff.mpr rfl) hdetails
    | details _ _ _ => exact .details h

/-- The check of an object respects rearrangements if its outcome depends on the last values of the
declared names and on the undeclared members. -/
theorem respects_object {fields : List (String × Schema)}
    {check : List (String × Value) → Checked α} (hnames : (fields.map Prod.fst).Nodup)
    (h : ∀ members members', (∀ field ∈ fields, LastRearranges field.2
        (Json.lastMember? field.1 members) (Json.lastMember? field.1 members')) →
      (onlyDeclared (fields.map Prod.fst) members).Alike
        (onlyDeclared (fields.map Prod.fst) members') →
      (check members).Alike (check members')) : Respects (.model fields) (object check) := by
  intro value value' hvalue
  have hobjects : ∃ members members', value = .object members ∧ value' = .object members' := by
    cases hvalue with
    | reorder _ _ | drop _ _ | field _ _ => exact ⟨_, _, rfl, rfl⟩
  obtain ⟨members, members', rfl, rfl⟩ := hobjects
  exact h members members' (fun _ => lastRearranges_of_rearranges hnames hvalue)
    (alike_onlyDeclared (shuffled_undeclared hvalue))

end Checks

/-! ## Messages -/

/-- The check of a text respects rearrangements. -/
theorem respects_checkText : Respects textSchema checkText := respects_plain _ _

/-- The check of a condition respects rearrangements. -/
theorem Condition.respects_ofValue : Respects schema ofValue := by
  refine respects_object (by decide) ?_
  intro members members' hlast hextra
  simp only [List.forall_mem_cons] at hlast
  obtain ⟨hexpression, htitle, hdescription, hlocation, _⟩ := hlast
  exact (((((respects_checkText.member "" hexpression).both
    (respects_checkText.member "" htitle)).both
    (respects_checkText.member "" hdescription)).both
    (respects_checkText.member "" hlocation)).both hextra).map _

/-- The check of a condition that may be absent respects rearrangements. -/
theorem respects_conditionOf : Respects (.nullable Condition.schema) conditionOf := by
  refine Condition.respects_ofValue.option ?_
  intro value hvalue
  cases value with
  | null => exact absurd rfl hvalue
  | _ => rfl

/-- The check of a binding respects rearrangements. -/
theorem Binding.respects_ofValue : Respects schema ofValue := by
  refine respects_object (by decide) ?_
  intro members members' hlast hextra
  simp only [List.forall_mem_cons] at hlast
  obtain ⟨hrole, hmembers, hcondition, _⟩ := hlast
  exact ((((respects_checkText.member "" hrole).both
    (respects_checkText.array.member [] hmembers)).both
    (respects_conditionOf.member none hcondition)).both hextra).map _

namespace Message

/-- The check of a message respects rearrangements. -/
theorem respects_ofValue : Respects schema ofValue := by
  refine respects_object (by decide) ?_
  intro members members' hlast hextra
  simp only [List.forall_mem_cons] at hlast
  obtain ⟨hversion, hbindings, hetag, _⟩ := hlast
  exact (((((respects_plain _ _).member 0 hversion).both
    (Binding.respects_ofValue.array.member [] hbindings)).both
    ((respects_plain _ _).member [] hetag)).both hextra).map _

/-- Validation gives the same message for a document and for what it is rearranged to, any number of
times, or reports shuffled details. What is a text of the one can be rearranged to a text of the
other, and payloads with such texts give the same message or report shuffled details. -/
theorem ofValue_rearranged {value value' : Value}
    (h : Relation.ReflTransGen (Rearranges schema) value value') :
    (ofValue value).Alike (ofValue value') ∧
    ∀ json : String, Document ⟨200, 4300⟩ value json.toList →
      (∃ json' : String, Document ⟨200, 4300⟩ value' json'.toList) ∧
      ∀ json' : String, Document ⟨200, 4300⟩ value' json'.toList →
        ∀ payload payload' : Payload, payload.text? = some json → payload'.text? = some json' →
          (ofPayload payload).Alike (ofPayload payload') := by
  have halike : (ofValue value).Alike (ofValue value') := by
    induction h with
    | refl => exact .refl _
    | tail _ hstep ih => exact ih.trans (respects_ofValue _ _ hstep)
  have hspellable : value.Spellable ⟨200, 4300⟩ 200 → value'.Spellable ⟨200, 4300⟩ 200 := by
    intro hvalue
    clear halike
    induction h with
    | refl => exact hvalue
    | tail _ hstep ih => exact hstep.spellable ih
  have hread : ∀ {payload : Payload} {json : String} {value : Value}, payload.text? = some json →
      Document ⟨200, 4300⟩ value json.toList → ofPayload payload = ofValue value := by
    intro payload json value hpayload hjson
    rw [← ofPayload_of_document hjson, ofPayload, hpayload]
    rfl
  refine ⟨halike, ?_⟩
  intro json hjson
  refine ⟨Json.exists_document_iff.mpr (hspellable (Json.exists_document_iff.mp ⟨json, hjson⟩)), ?_⟩
  intro json' hjson' payload payload' hpayload hpayload'
  rw [hread hpayload hjson, hread hpayload' hjson']
  exact halike

/-- A document with an etag that is overwritten and a binding. -/
private def bound (binding : List (String × Value)) : Value :=
  .object [("etag", .null), ("bindings", .array [.object binding]), ("etag", .text "QQ==")]

/-- The members of a binding with a condition, behind others. -/
private def conditional (others condition : List (String × Value)) : List (String × Value) :=
  others ++ [("condition", .object condition), ("role", .text "r")]

/-- A document whose binding has a role that is overwritten. -/
private def unsorted : Value :=
  bound (conditional [("role", .null)] [("title", .text "t"), ("expression", .text "e")])

/-- The same document with its members in another order and without what is overwritten. -/
private def sorted : Value :=
  .object [("etag", .text "QQ=="), ("bindings",
    .array [.object (conditional [] [("expression", .text "e"), ("title", .text "t")])])]

/-- A binding is rearranged within a document. -/
private theorem rearranges_bound {binding binding' : List (String × Value)}
    (h : Rearranges Binding.schema (.object binding) (.object binding')) :
    Rearranges schema (bound binding) (bound binding') :=
  @Rearranges.field _ [("etag", .null)] [("etag", .text "QQ==")] "bindings" (.list Binding.schema)
    _ _ (by simp) (@Rearranges.item _ [] [] _ _ h)

/-- A condition is rearranged within a binding. -/
private theorem rearranges_conditional {others condition condition' : List (String × Value)}
    (h : Rearranges Condition.schema (.object condition) (.object condition')) :
    Rearranges Binding.schema (.object (conditional others condition))
      (.object (conditional others condition')) :=
  @Rearranges.field _ others [("role", .text "r")] "condition" (.nullable Condition.schema)
    _ _ (by simp) (.nullable h)

/-- The document is rearranged within its condition, its binding and itself. -/
private theorem rearranges_unsorted :
    Relation.ReflTransGen (Rearranges schema) unsorted sorted := by
  have hcondition : Rearranges Condition.schema
      (.object [("title", .text "t"), ("expression", .text "e")])
      (.object [("expression", .text "e"), ("title", .text "t")]) := by
    refine .reorder (.swap _ _ _) ?_
    simp only [List.map_cons, List.forall_mem_cons]
    exact ⟨rfl, rfl, rfl, rfl, List.forall_mem_nil _⟩
  have hrole (condition : List (String × Value)) : Rearranges Binding.schema
      (.object (conditional [("role", .null)] condition)) (.object (conditional [] condition)) :=
    @Rearranges.drop _ [] [("condition", .object condition), ("role", .text "r")] "role" .null
      (by simp) (by simp)
  have hetag (binding : List (String × Value)) : Rearranges schema (bound binding)
      (.object [("bindings", .array [.object binding]), ("etag", .text "QQ==")]) :=
    @Rearranges.drop _ [] [("bindings", .array [.object binding]), ("etag", .text "QQ==")] "etag"
      .null (by simp) (by simp)
  have hswap (binding : List (String × Value)) : Rearranges schema
      (.object [("bindings", .array [.object binding]), ("etag", .text "QQ==")])
      (.object [("etag", .text "QQ=="), ("bindings", .array [.object binding])]) := by
    refine .reorder (.swap _ _ _) ?_
    simp only [List.map_cons, List.forall_mem_cons]
    exact ⟨rfl, rfl, rfl, List.forall_mem_nil _⟩
  exact (((Relation.ReflTransGen.single (rearranges_bound (rearranges_conditional hcondition))).tail
    (rearranges_bound (hrole _))).tail (hetag _)).tail (hswap _)

/-- A document with two members that are not declared. -/
private def strange (first second : String) : Value := .object [(first, .null), (second, .null)]

/-- Such a document is spelled by its text. -/
private theorem document_strange (first second : String) :
    Document ⟨200, 4300⟩ (strange first second) (strange first second).toText.toList := by
  have hfits : (strange first second).Fits limits limits.depth :=
    .inr ⟨by decide, trivial, trivial, trivial⟩
  exact Value.ofChars?_eq_some_iff.mp (Value.ofText?_toText hfits)

/-- A document is read as the same message when members are dropped and put in another order at
every level, and undeclared members are reported in their order. -/
theorem ofValue_rearranged_unsorted :
    (Relation.ReflTransGen (Rearranges schema) unsorted sorted ∧
      ofValue unsorted = .ok ⟨0, [⟨"r", [], some ⟨"e", "t", "", ""⟩⟩], [65]⟩ ∧
      ofValue sorted = .ok ⟨0, [⟨"r", [], some ⟨"e", "t", "", ""⟩⟩], [65]⟩) ∧
    (Relation.ReflTransGen (Rearranges schema) (strange "x" "y") (strange "y" "x") ∧
      (ofPayload (.text (strange "x" "y").toText)).Alike
        (ofPayload (.text (strange "y" "x").toText)) ∧
      ofPayload (.text (strange "x" "y").toText) =
        .error [⟨.extraForbidden, [.key "x"]⟩, ⟨.extraForbidden, [.key "y"]⟩] ∧
      ofPayload (.text (strange "y" "x").toText) =
        .error [⟨.extraForbidden, [.key "y"]⟩, ⟨.extraForbidden, [.key "x"]⟩]) := by
  have hstrange : Rearranges schema (strange "x" "y") (strange "y" "x") := by
    refine .reorder (.swap _ _ _) ?_
    simp only [List.map_cons, List.forall_mem_cons]
    exact ⟨rfl, rfl, rfl, List.forall_mem_nil _⟩
  have hunsorted : ofValue unsorted = .ok ⟨0, [⟨"r", [], some ⟨"e", "t", "", ""⟩⟩], [65]⟩ := by
    decide +kernel
  obtain ⟨hvalue, _⟩ := ofValue_rearranged rearranges_unsorted
  obtain ⟨_, htexts⟩ := ofValue_rearranged (.single hstrange)
  have hsorted : ofValue sorted = .ok ⟨0, [⟨"r", [], some ⟨"e", "t", "", ""⟩⟩], [65]⟩ := by
    rw [hunsorted] at hvalue
    generalize ofValue sorted = outcome at hvalue
    cases hvalue with
    | value => rfl
  refine ⟨⟨rearranges_unsorted, hunsorted, hsorted⟩, .single hstrange, ?_, ?_, ?_⟩
  · obtain ⟨_, hpayloads⟩ := htexts _ (document_strange "x" "y")
    exact hpayloads _ (document_strange "y" "x") (.text _) (.text _) rfl rfl
  · decide +kernel
  · decide +kernel

end Message

end AccessPolicy.Wire
