import Mathlib
import AccessPolicy.Fault
import AccessPolicy.Proofs.Outcome
import AccessPolicy.Proofs.Text.Decimal
import AccessPolicy.Proofs.Text.Quoted
import AccessPolicy.Rendering

/-!
# Unambiguous renderings

Every part of a policy is rendered in a delimited way: texts end with their mark, and records, sets
and sequences tell by what follows a part whether there is another one. Therefore a rendering cannot
be mistaken for that of another policy, whatever its texts contain, and the report on an etag shows
the etag without a character that is not printable.
-/

namespace AccessPolicy

open Text (IsDelimited append_ne_append isDelimited_of_prefix isDelimited_quoted)

namespace Rendering

variable {α : Type} {label x y rest rest' : String} {parts parts' : List String}

/-- What comes after the first of several parts: the others, each after a comma, and the end. -/
def remaining (close : String) : List String → String
  | [] => close
  | part :: parts => ", " ++ (part ++ remaining close parts)

/-- Several parts are the first one and the remaining ones. -/
theorem intercalate_append (part : String) (parts : List String) (close rest : String) :
    ", ".intercalate (part :: parts) ++ (close ++ rest) = part ++ (remaining close parts ++ rest) := by
  induction parts generalizing part with
  | nil => rw [String.intercalate_singleton, remaining]
  | cons next parts ih =>
    rw [String.intercalate_cons_cons, String.append_assoc, String.append_assoc, ih, remaining,
      String.append_assoc, String.append_assoc]

/-- Records of one name and one first field are compared by its value and what comes after it. -/
theorem record_append_inj {name : String} :
    record name (field label x :: parts) ++ rest = record name (field label y :: parts') ++ rest' ↔
      x ++ (remaining ")" parts ++ rest) = y ++ (remaining ")" parts' ++ rest') := by
  simp only [record, field, String.append_assoc, intercalate_append, String.append_right_inj]

/-- What remains of records with one next field is compared by its value and what comes after it. -/
theorem remaining_append_inj {close : String} :
    remaining close (field label x :: parts) ++ rest =
        remaining close (field label y :: parts') ++ rest' ↔
      x ++ (remaining close parts ++ rest) = y ++ (remaining close parts' ++ rest') := by
  simp only [remaining, field, String.append_assoc, String.append_right_inj]

/-- After the last part comes what follows. -/
theorem remaining_nil_append_inj {close : String} :
    remaining close [] ++ rest = remaining close [] ++ rest' ↔ rest = rest' := by
  rw [remaining, String.append_right_inj]

/-- A record begins as its name does. -/
theorem head?_record {name : String} {c : Char} (h : name.toList.head? = some c)
    (fields : List String) : (record name fields).toList.head? = some c := by
  simp only [record, String.toList_append, List.head?_append, h, Option.some_or]

/-- A set begins as the name of its type does. -/
theorem head?_collection (items : List String) : (collection items).toList.head? = some 'f' := by
  cases items with
  | nil => rfl
  | cons item items =>
    simp only [collection, String.toList_append, List.head?_append]
    rfl

/-- An optional value is delimited if no value begins like an absent one. -/
theorem isDelimited_optional {write : α → String} (h : IsDelimited write)
    (hne : ∀ a rest rest', write a ++ rest ≠ "None" ++ rest') : IsDelimited (optional write) := by
  intro a b rest rest' he
  cases a with
  | none =>
    cases b with
    | none => exact ⟨rfl, (String.append_right_inj _).mp he⟩
    | some b => exact absurd he.symm (hne b rest' rest)
  | some a =>
    cases b with
    | none => exact absurd he (hne a rest rest')
    | some b =>
      obtain ⟨rfl, hrest⟩ := h a b rest rest' he
      exact ⟨rfl, hrest⟩

/-- Lists are delimited if the empty one differs from the others, and these show their items. -/
theorem isDelimited_list {write : List α → String}
    (hnil : ∀ b bs rest rest', write [] ++ rest ≠ write (b :: bs) ++ rest')
    (hcons : ∀ a as b bs rest rest', write (a :: as) ++ rest = write (b :: bs) ++ rest' →
      a :: as = b :: bs ∧ rest = rest') : IsDelimited write := by
  intro as bs rest rest' he
  cases as with
  | nil =>
    cases bs with
    | nil => exact ⟨rfl, (String.append_right_inj _).mp he⟩
    | cons b bs => exact absurd he (hnil b bs rest rest')
  | cons a as =>
    cases bs with
    | nil => exact absurd he.symm (hnil a as rest' rest)
    | cons b bs => exact hcons a as b bs rest rest' he

/-- The remaining items of a list are delimited if its end does not begin with a comma. -/
theorem isDelimited_remaining {write : α → String} (h : IsDelimited write) {close : String}
    {c : Char} (hclose : close.toList.head? = some c) (hc : c ≠ ',') :
    IsDelimited fun items : List α => remaining close (items.map write) := by
  intro as
  induction as with
  | nil =>
    intro bs rest rest' he
    cases bs with
    | nil => exact ⟨rfl, remaining_nil_append_inj.mp he⟩
    | cons b bs =>
      simp only [List.map_nil, List.map_cons, remaining, String.append_assoc] at he
      exact absurd he (append_ne_append hclose rfl hc _ _)
  | cons a as ih =>
    intro bs rest rest' he
    cases bs with
    | nil =>
      simp only [List.map_nil, List.map_cons, remaining, String.append_assoc] at he
      exact absurd he.symm (append_ne_append hclose rfl hc _ _)
    | cons b bs =>
      simp only [List.map_cons, remaining, String.append_assoc, String.append_right_inj] at he
      obtain ⟨rfl, hremaining⟩ := h a b _ _ he
      obtain ⟨rfl, hrest⟩ := ih bs rest rest' hremaining
      exact ⟨rfl, hrest⟩

/-- A set is delimited if its members are. -/
theorem isDelimited_collection {write : α → String} (h : IsDelimited write) :
    IsDelimited fun items : List α => collection (items.map write) := by
  have hempty : ("frozenset()" : String) = "frozenset(" ++ ")" := by decide
  have hopen : ("frozenset(\x7b" : String) = "frozenset(" ++ "\x7b" := by decide
  refine isDelimited_list (fun b bs rest rest' he => ?_) fun a as b bs rest rest' he => ?_
  · simp only [List.map_nil, List.map_cons, collection, hempty, hopen, String.append_assoc,
      String.append_right_inj] at he
    exact append_ne_append rfl rfl (by decide) _ _ he
  · simp only [List.map_cons, collection, String.append_assoc, intercalate_append,
      String.append_right_inj] at he
    obtain ⟨rfl, hremaining⟩ := h a b _ _ he
    obtain ⟨rfl, hrest⟩ := isDelimited_remaining h rfl (by decide) as bs _ _ hremaining
    exact ⟨rfl, hrest⟩

/-- What comes after the first item of a sequence: the others, or the comma behind a single one. -/
def following : List String → String
  | [] => ",)"
  | item :: items => remaining ")" (item :: items)

/-- A sequence is the first item and what comes after it. -/
theorem sequence_append (item : String) (items : List String) (rest : String) :
    sequence (item :: items) ++ rest = "(" ++ (item ++ (following items ++ rest)) := by
  cases items with
  | nil => simp only [sequence, following, String.append_assoc]
  | cons next items => simp only [sequence, following, String.append_assoc, intercalate_append]

/-- What comes after the first item of a sequence is delimited if the items are. -/
theorem isDelimited_following {write : α → String} (h : IsDelimited write) :
    IsDelimited fun items : List α => following (items.map write) := by
  have hsingle : (",)" : String) = "," ++ ")" := by decide
  have hnext : (", " : String) = "," ++ " " := by decide
  refine isDelimited_list (fun b bs rest rest' he => ?_) fun a as b bs rest rest' he => ?_
  · simp only [List.map_nil, List.map_cons, following, remaining, hsingle, hnext,
      String.append_assoc, String.append_right_inj] at he
    exact append_ne_append rfl rfl (by decide) _ _ he
  · exact isDelimited_remaining h rfl (by decide) (a :: as) (b :: bs) rest rest' he

/-- A sequence is delimited if its items are and none of them begins like its end. -/
theorem isDelimited_sequence {write : α → String} (h : IsDelimited write)
    (hne : ∀ a rest rest', write a ++ rest ≠ ")" ++ rest') :
    IsDelimited fun items : List α => sequence (items.map write) := by
  refine isDelimited_list (fun b bs rest rest' he => ?_) fun a as b bs rest rest' he => ?_
  · rw [List.map_cons, sequence_append] at he
    simp only [List.map_nil, sequence, String.intercalate_nil, String.append_empty,
      String.append_assoc, String.append_right_inj] at he
    exact hne b _ rest he.symm
  · rw [List.map_cons, List.map_cons, sequence_append, sequence_append,
      String.append_right_inj] at he
    obtain ⟨rfl, hfollowing⟩ := h a b _ _ he
    obtain ⟨rfl, hrest⟩ := isDelimited_following h as bs rest rest' hfollowing
    exact ⟨rfl, hrest⟩

end Rendering

open Rendering

/-! ## The parts of a policy -/

/-- A quoted text does not begin like an absent one. -/
theorem quoted_append_ne (s rest rest' : String) : Text.quoted s ++ rest ≠ "None" ++ rest' := by
  have hhead : (Text.quoted s).toList.head? = some (Text.Quoted.mark s.toList) := by
    rw [Text.quoted, String.toList_ofList]
    rfl
  refine append_ne_append hhead rfl ?_ rest rest'
  rcases Text.Quoted.isMark_mark s.toList with hmark | hmark <;> rw [hmark] <;> decide

/-- Optional texts are delimited. -/
theorem isDelimited_optional_quoted : IsDelimited (optional Text.quoted) :=
  isDelimited_optional isDelimited_quoted quoted_append_ne

/-- Kinds are delimited by their names in capitals, of which none begins like another. -/
theorem Kind.isDelimited_render : IsDelimited Kind.render := by
  have hconstant : IsDelimited Kind.constant := isDelimited_of_prefix fun a b => by
    cases a <;> cases b <;> decide
  have hrender (kind : Kind) : kind.render =
      "<IdentityType." ++ kind.constant ++ ": " ++ Text.quoted kind.name ++ ">" := rfl
  intro a b rest rest' h
  simp only [hrender, String.append_assoc, String.append_right_inj] at h
  obtain ⟨rfl, hname⟩ := hconstant a b _ _ h
  simp only [String.append_right_inj] at hname
  exact ⟨rfl, hname⟩

/-- Identities are delimited. -/
theorem Identity.isDelimited_render : IsDelimited Identity.render := by
  rintro ⟨kind, value⟩ ⟨kind', value'⟩ rest rest' h
  obtain ⟨rfl, hvalue⟩ := Kind.isDelimited_render _ _ _ _ (record_append_inj.mp h)
  obtain ⟨rfl, hclose⟩ := isDelimited_optional_quoted _ _ _ _ (remaining_append_inj.mp hvalue)
  exact ⟨rfl, remaining_nil_append_inj.mp hclose⟩

/-- Roles are delimited. -/
theorem Role.isDelimited_render : IsDelimited Role.render := by
  rintro ⟨name⟩ ⟨name'⟩ rest rest' h
  obtain ⟨rfl, hclose⟩ := isDelimited_optional_quoted _ _ _ _ (record_append_inj.mp h)
  exact ⟨rfl, remaining_nil_append_inj.mp hclose⟩

/-- Conditions are delimited. -/
theorem Condition.isDelimited_render : IsDelimited Condition.render := by
  rintro ⟨title, description, expression⟩ ⟨title', description', expression'⟩ rest rest' h
  obtain ⟨rfl, hdescription⟩ := isDelimited_optional_quoted _ _ _ _ (record_append_inj.mp h)
  obtain ⟨rfl, hexpression⟩ :=
    isDelimited_optional_quoted _ _ _ _ (remaining_append_inj.mp hdescription)
  obtain ⟨rfl, hclose⟩ := isDelimited_optional_quoted _ _ _ _ (remaining_append_inj.mp hexpression)
  exact ⟨rfl, remaining_nil_append_inj.mp hclose⟩

/-- Lists of members are delimited. -/
theorem isDelimited_renderMembers : IsDelimited renderMembers :=
  isDelimited_collection (isDelimited_optional Identity.isDelimited_render fun _ =>
    append_ne_append (head?_record rfl _) rfl (by decide))

/-- A binding with the members of its identity set in the order in which they come. -/
structure Binding.Itemized where
  /-- The role. -/
  role : Option Role
  /-- The members. -/
  members : Option (List (Option Identity))
  /-- The condition. -/
  condition : Option Condition

/-- The rendering of a binding with its members in order. -/
def Binding.Itemized.render (itemized : Itemized) : String :=
  record "Binding" [field "role" (optional Role.render itemized.role),
    field "identities" (optional renderMembers itemized.members),
    field "condition" (optional Condition.render itemized.condition)]

/-- The members of a binding in the order in which they come. -/
def Binding.itemized (listing : Listing) (binding : Binding) : Itemized :=
  ⟨binding.role, binding.identities.map listing.list, binding.condition⟩

/-- The binding again, of which the order of its members is no part. -/
def Binding.Itemized.binding (itemized : Itemized) : Binding :=
  ⟨itemized.role, itemized.members.map OrderedSet.ofList, itemized.condition⟩

/-- In whatever order its members came, a binding is the same again. -/
theorem Binding.binding_itemized (listing : Listing) (binding : Binding) :
    (binding.itemized listing).binding = binding := by
  have hset (identities : IdentitySet) :
      OrderedSet.ofList (listing.list identities) = identities :=
    OrderedSet.ext fun identity => by
      rw [OrderedSet.mem_ofList, (listing.perm identities).mem_iff, OrderedSet.mem_iff]
  obtain ⟨role, identities, condition⟩ := binding
  cases identities with
  | none => rfl
  | some identities => exact congrArg (fun set => (⟨role, some set, condition⟩ : Binding)) (hset _)

/-- The rendering of a binding shows its members in the order in which they come. -/
theorem Binding.render_eq (listing : Listing) (binding : Binding) :
    binding.render listing = (binding.itemized listing).render := by
  obtain ⟨role, identities, condition⟩ := binding
  cases identities <;> rfl

/-- Bindings with their members in order are delimited. -/
theorem Binding.Itemized.isDelimited_render : IsDelimited Itemized.render := by
  have hrole : IsDelimited (optional Role.render) :=
    isDelimited_optional Role.isDelimited_render fun _ =>
      append_ne_append (head?_record rfl _) rfl (by decide)
  have hmembers : IsDelimited (optional renderMembers) :=
    isDelimited_optional isDelimited_renderMembers fun _ =>
      append_ne_append (head?_collection _) rfl (by decide)
  have hcondition : IsDelimited (optional Condition.render) :=
    isDelimited_optional Condition.isDelimited_render fun _ =>
      append_ne_append (head?_record rfl _) rfl (by decide)
  rintro ⟨role, members, condition⟩ ⟨role', members', condition'⟩ rest rest' h
  obtain ⟨rfl, hidentities⟩ := hrole _ _ _ _ (record_append_inj.mp h)
  obtain ⟨rfl, hlast⟩ := hmembers _ _ _ _ (remaining_append_inj.mp hidentities)
  obtain ⟨rfl, hclose⟩ := hcondition _ _ _ _ (remaining_append_inj.mp hlast)
  exact ⟨rfl, remaining_nil_append_inj.mp hclose⟩

/-- Bindings are told by a sequence of their renderings, in whatever orders their members came. -/
theorem Binding.sequence_append_inj {listing other : Listing} {bindings bindings' : List Binding}
    {rest rest' : String}
    (h : sequence (bindings.map (Binding.render listing)) ++ rest =
      sequence (bindings'.map (Binding.render other)) ++ rest') :
    bindings = bindings' ∧ rest = rest' := by
  have hbindings := isDelimited_sequence Itemized.isDelimited_render fun _ =>
    append_ne_append (head?_record rfl _) rfl (by decide)
  have hitemized (listing : Listing) (bindings : List Binding) :
      bindings.map (Binding.render listing) =
        (bindings.map (Binding.itemized listing)).map Itemized.render := by
    rw [List.map_map]
    exact List.map_congr_left fun binding _ => binding.render_eq listing
  have hback (listing : Listing) (bindings : List Binding) :
      (bindings.map (Binding.itemized listing)).map Itemized.binding = bindings := by
    rw [List.map_map]
    exact (List.map_congr_left fun binding _ => binding.binding_itemized listing).trans
      (List.map_id _)
  rw [hitemized, hitemized] at h
  obtain ⟨hsame, hrest⟩ := hbindings _ _ _ _ h
  exact ⟨by rw [← hback listing bindings, hsame, hback], hrest⟩

/-! ## Policies and reports -/

variable {listing other : Listing} {digits digits' : Option Nat} {p q : Policy}

/-- A policy is rendered if its version can be written out. -/
theorem Policy.render_eq_ok_iff {text : String} :
    p.render listing digits = .ok text ↔
      Text.decimal digits p.version = .ok (toString p.version) ∧
        text = record "Policy"
          [field "bindings" (sequence (p.bindings.map (Binding.render listing))),
            field "etag" (optional Text.quoted p.etag), field "version" (toString p.version)] := by
  rw [render, map_eq_ok_iff]
  constructor
  · rintro ⟨version, hversion, rfl⟩
    have hdecimal := mapError_eq_ok_iff.mp hversion
    obtain rfl := Text.eq_toString_of_decimal hdecimal
    exact ⟨hdecimal, rfl⟩
  · rintro ⟨hdecimal, rfl⟩
    exact ⟨_, mapError_eq_ok_iff.mpr hdecimal, rfl⟩

/-- Different policies have different renderings, in whatever orders their members come. -/
theorem Policy.eq_of_render {text : String} (hp : p.render listing digits = .ok text)
    (hq : q.render other digits' = .ok text) : p = q := by
  obtain ⟨_, hp⟩ := Policy.render_eq_ok_iff.mp hp
  obtain ⟨_, hq⟩ := Policy.render_eq_ok_iff.mp hq
  obtain ⟨bindings, etag, version⟩ := p
  obtain ⟨bindings', etag', version'⟩ := q
  have hpolicy := congrArg (· ++ "") (hp.symm.trans hq)
  obtain ⟨rfl, hetag⟩ := Binding.sequence_append_inj (record_append_inj.mp hpolicy)
  obtain ⟨rfl, hversion⟩ := isDelimited_optional_quoted _ _ _ _ (remaining_append_inj.mp hetag)
  -- The version stands last, so what comes after it is the same anyway.
  obtain rfl : version = version' := by
    rw [remaining_append_inj, String.append_left_inj, Int.toString_eq_repr, Int.toString_eq_repr,
      Int.repr_inj] at hversion
    exact hversion
  rfl

/-- There is only one order for the members of a set that has at most one. -/
theorem Listing.list_eq {identities : IdentitySet} (h : identities.size ≤ 1) :
    listing.list identities = other.list identities := by
  have hperm := (listing.perm identities).trans (other.perm identities).symm
  have hlength : (other.list identities).length ≤ 1 := (other.perm identities).length_eq.trans_le h
  generalize other.list identities = members at hperm hlength ⊢
  match members with
  | [] => exact hperm.eq_nil
  | [member] => exact List.perm_singleton.mp hperm
  | _ :: _ :: _ => exact absurd hlength (by simp)

/-- A policy whose identity sets have at most one member has only one rendering. -/
theorem Policy.render_eq_render
    (h : ∀ binding ∈ p.bindings, ∀ identities ∈ binding.identities, identities.size ≤ 1) :
    p.render listing digits = p.render other digits := by
  have hbindings : p.bindings.map (Binding.render listing) =
      p.bindings.map (Binding.render other) := by
    refine List.map_congr_left fun binding hm => ?_
    have hset := h binding hm
    rw [Binding.render, Binding.render]
    cases hidentities : binding.identities with
    | none => rfl
    | some identities =>
      have hrender : IdentitySet.render listing identities = IdentitySet.render other identities :=
        congrArg renderMembers (Listing.list_eq (hset identities hidentities))
      simp only [Rendering.optional, hrender]
  rw [render, render, hbindings]

/-- An etag that reads like the end of a policy is quoted as a whole. -/
example : Policy.render .sorted none ⟨[], some "x', version=1)", 0⟩ =
    .ok "Policy(bindings=(), etag=\"x', version=1)\", version=0)" := by
  decide +kernel

end AccessPolicy
