import AccessPolicy.Comparison
import AccessPolicy.Proofs.Input.Relisting
import Mathlib.Data.Set.Card

/-!
# Equality of policies

Policies are equal if they agree: in etag and version, and binding by binding in the role, in the
members of the identity set and in the parts of the condition. So the order of the bindings and how
often each of them stands there matter, while the order in which the identities of a binding were
listed does not. The different policies in a list are as many as the classes of those that agree.
-/

namespace AccessPolicy

/-! ## Agreement -/

/-- What it means that two conditions say the same. -/
structure Condition.Agrees (a b : Condition) : Prop where
  /-- The names are the same. -/
  title : a.title = b.title
  /-- The explanations are the same. -/
  description : a.description = b.description
  /-- The expressions are the same. -/
  expression : a.expression = b.expression

/-- What it means that two bindings grant the same. -/
structure Binding.Agrees (a b : Binding) : Prop where
  /-- The roles have the same name. -/
  role : a.role.map Role.name = b.role.map Role.name
  /-- The identity sets have the same members. -/
  identities : Option.Rel (fun s t => ∀ member, member ∈ s ↔ member ∈ t) a.identities b.identities
  /-- There is no condition, or one that says the same. -/
  condition : Option.Rel Condition.Agrees a.condition b.condition

/-- What it means that two policies grant the same, in the same order. -/
structure Policy.Agrees (a b : Policy) : Prop where
  /-- The etags are the same. -/
  etag : a.etag = b.etag
  /-- The versions are the same. -/
  version : a.version = b.version
  /-- There are as many bindings, and those at the same place grant the same. -/
  bindings : List.Forall₂ Binding.Agrees a.bindings b.bindings

/-- Optional values are related by a relation that means equality exactly if they are equal. -/
private theorem rel_iff_eq {α : Type} {R : α → α → Prop} (h : ∀ x y, R x y ↔ x = y)
    {a b : Option α} : Option.Rel R a b ↔ a = b := by
  constructor
  · rintro (⟨hr⟩ | _)
    · rw [(h _ _).mp hr]
    · rfl
  · rintro rfl
    cases a with
    | none => exact .none
    | some x => exact .some ((h x x).mpr rfl)

/-- Conditions say the same exactly if they are equal. -/
theorem Condition.agrees_iff_eq {a b : Condition} : a.Agrees b ↔ a = b := by
  constructor
  · rintro ⟨ht, hd, he⟩
    cases a
    cases b
    rw [mk.injEq]
    exact ⟨ht, hd, he⟩
  · rintro rfl
    exact ⟨rfl, rfl, rfl⟩

/-- Bindings grant the same exactly if they are equal. -/
theorem Binding.agrees_iff_eq {a b : Binding} : a.Agrees b ↔ a = b := by
  have hname : Function.Injective (Option.map Role.name) :=
    Option.map_injective fun ⟨_⟩ ⟨_⟩ h => congrArg Role.mk h
  have hsets (s t : IdentitySet) : (∀ member, member ∈ s ↔ member ∈ t) ↔ s = t :=
    ⟨OrderedSet.ext, fun h member => h ▸ Iff.rfl⟩
  constructor
  · rintro ⟨hr, hi, hc⟩
    cases a
    cases b
    rw [mk.injEq]
    exact ⟨hname hr, (rel_iff_eq hsets).mp hi,
      (rel_iff_eq fun _ _ => Condition.agrees_iff_eq).mp hc⟩
  · rintro rfl
    exact ⟨rfl, (rel_iff_eq hsets).mpr rfl, (rel_iff_eq fun _ _ => Condition.agrees_iff_eq).mpr rfl⟩

/-- Policies agree exactly if they are equal. -/
theorem Policy.agrees_iff_eq {a b : Policy} : a.Agrees b ↔ a = b := by
  have hbindings : Binding.Agrees = Eq :=
    funext fun _ => funext fun _ => propext Binding.agrees_iff_eq
  constructor
  · rintro ⟨he, hv, hb⟩
    rw [hbindings, List.forall₂_eq_eq_eq] at hb
    cases a
    cases b
    rw [mk.injEq]
    exact ⟨hb, he, hv⟩
  · rintro rfl
    exact ⟨rfl, rfl, List.forall₂_same.mpr fun _ _ => Binding.agrees_iff_eq.mpr rfl⟩

/-! ## Altered lists of bindings -/

/-- What it means that a list of bindings is altered in one place or in two. -/
inductive Alters : List Binding → List Binding → Prop where
  /-- A binding is dropped. -/
  | drop (before : List Binding) (binding : Binding) (after : List Binding) :
      Alters (before ++ binding :: after) (before ++ after)
  /-- A binding of the list is put into it once more. -/
  | duplicate (before after : List Binding) {binding : Binding}
      (known : binding ∈ before ++ after) : Alters (before ++ after) (before ++ binding :: after)
  /-- Two bindings that do not grant the same change places. -/
  | swap (before between after : List Binding) {first second : Binding}
      (differ : ¬first.Agrees second) :
      Alters (before ++ first :: between ++ second :: after)
        (before ++ second :: between ++ first :: after)

/-- An altered list is another list. -/
theorem Alters.ne {bindings altered : List Binding} (h : Alters bindings altered) :
    bindings ≠ altered := by
  intro he
  cases h with
  | drop before binding after =>
    have hlength := congrArg List.length he
    simp only [List.length_append, List.length_cons] at hlength
    omega
  | duplicate =>
    have hlength := congrArg List.length he
    simp only [List.length_append, List.length_cons] at hlength
    omega
  | swap before between after differ =>
    simp only [List.append_assoc, List.append_cancel_left_eq, List.cons_append,
      List.cons.injEq] at he
    exact differ (Binding.agrees_iff_eq.mpr he.1)

/-! ## Counting -/

section Counting

variable {α : Type} [DecidableEq α]

/-- No value is left twice when repetitions are dropped. -/
private theorem nodup_eraseDups : (values : List α) → values.eraseDups.Nodup
  | [] => .nil
  | value :: rest => by
    have hshorter := List.length_filter_le (fun other => !other == value) rest
    rw [List.eraseDups_cons, List.nodup_cons, List.mem_eraseDups, List.mem_filter]
    exact ⟨by simp only [beq_self_eq_true, Bool.not_true, Bool.false_eq_true, and_false,
      not_false_eq_true], nodup_eraseDups _⟩
termination_by values => values.length

/-- The different values in a list are as many as the set of its values has. -/
theorem countDistinct_eq_card (values : List α) : countDistinct values = values.toFinset.card := by
  rw [countDistinct, ← List.toFinset_card_of_nodup (nodup_eraseDups values)]
  congr 1
  ext value
  rw [List.mem_toFinset, List.mem_toFinset, List.mem_eraseDups]

end Counting

namespace Policy

/-- The classes of those policies in a list that agree with one another. -/
def classes (policies : List Policy) : Set (Set Policy) :=
  {members | ∃ policy ∈ policies, members = {other | other ∈ policies ∧ policy.Agrees other}}

/-- The different policies in a list are as many as the classes of those that agree. -/
theorem countDistinct_eq_ncard_classes (policies : List Policy) :
    countDistinct policies = (classes policies).ncard := by
  let classOf (policy : Policy) : Set Policy := {other | other ∈ policies ∧ policy.Agrees other}
  have hclasses : classes policies = classOf '' policies.toFinset := by
    ext members
    simp only [classes, Set.mem_ofPred_eq, Set.mem_image, List.coe_toFinset, eq_comm, classOf]
  have hinj : Set.InjOn classOf policies.toFinset := by
    intro policy hp other _ he
    rw [List.coe_toFinset] at hp
    have hself : policy ∈ classOf policy := ⟨hp, agrees_iff_eq.mpr rfl⟩
    rw [he] at hself
    exact (agrees_iff_eq.mp hself.2).symm
  rw [hclasses, hinj.ncard_image, Set.ncard_coe_finset, countDistinct_eq_card]

/-- Two policies compare as equal exactly if they agree, which is an equivalence relation. A policy
stays the same if the identities of its bindings are listed in another way. It becomes another one if
a binding is dropped or put in once more, or if two that do not grant the same change places. The
different policies in a list are as many as the classes of those that agree, in whatever order and
number they stand there. -/
theorem equality_structural :
    (∀ first second : Policy, (Comparison.of first second).equal = true ↔ first.Agrees second) ∧
    Equivalence (fun first second : Policy => (Comparison.of first second).equal = true) ∧
    (∀ entries others, List.Forall₂ BindingInput.Relists entries others →
      ∀ etag version atOnce atOnce' policy,
        PolicyInput.resolve ⟨some (some entries), etag, version, atOnce⟩ = .ok policy →
        ∃ other, PolicyInput.resolve ⟨some (some others), etag, version, atOnce'⟩ = .ok other ∧
          (Comparison.of policy other).equal = true) ∧
    (∀ first second : Policy, Alters first.bindings second.bindings →
      (Comparison.of first second).equal = false) ∧
    ∀ policies : List Policy, countDistinct policies = (classes policies).ncard ∧
      ∀ others : List Policy, (∀ policy, policy ∈ others ↔ policy ∈ policies) →
        countDistinct others = countDistinct policies := by
  have hequal (first second : Policy) :
      (Comparison.of first second).equal = true ↔ first = second := decide_eq_true_iff
  refine ⟨fun first second => ?_, ?_, ?_, fun first second h => ?_, fun policies => ⟨?_, ?_⟩⟩
  · rw [hequal, agrees_iff_eq]
  · simp only [hequal]
    exact ⟨Eq.refl, Eq.symm, Eq.trans⟩
  · intro entries others h etag version atOnce atOnce' policy hpolicy
    refine ⟨policy, ?_, (hequal policy policy).mpr rfl⟩
    exact (PolicyInput.resolve_eq_ok_congr h etag version atOnce atOnce').mp hpolicy
  · refine decide_eq_false fun he => h.ne ?_
    rw [he]
  · exact countDistinct_eq_ncard_classes policies
  · intro others h
    rw [countDistinct_eq_card, countDistinct_eq_card]
    congr 1
    ext policy
    rw [List.mem_toFinset, List.mem_toFinset, h]

/-- Listing identities as values, in another order and twice makes no difference. Changing the places
of two bindings does, and so does putting one in once more. -/
theorem equality_structural_relisted :
    let ann : Identity := ⟨.user, some "ann"⟩
    let unread : BindingInput := .binding (.value (some .owner)) (some []) (some {})
    let entries : List BindingInput :=
      [.binding (.name "viewer") (some [.text "user:ann", .text "allUsers"]) none, unread]
    let others : List BindingInput :=
      [.binding (.name "viewer") (some [.value ⟨.allUsers, none⟩, .value ann, .text "user:ann"])
        none, unread]
    let viewer : Binding :=
      ⟨some .viewer, some (OrderedSet.ofList [some ⟨.allUsers, none⟩, some ann]), none⟩
    let owner : Binding := ⟨some .owner, some OrderedSet.empty, some {}⟩
    let policy : Policy := ⟨[viewer, owner], some "QQ==", 1⟩
    let swapped : Policy := ⟨[owner, viewer], some "QQ==", 1⟩
    PolicyInput.resolve ⟨some (some entries), some (some "QQ=="), some 1, false⟩ = .ok policy ∧
      (∃ other, PolicyInput.resolve ⟨some (some others), some (some "QQ=="), some 1, true⟩ =
        .ok other ∧ (Comparison.of policy other).equal = true) ∧
      (Comparison.of policy swapped).equal = false ∧
      (Comparison.of policy ⟨[viewer, owner, viewer], some "QQ==", 1⟩).equal = false ∧
      countDistinct [policy, swapped, policy] = countDistinct [swapped, policy] := by
  intro ann unread entries others viewer owner policy swapped
  obtain ⟨hagrees, _, hrelisted, haltered, hcount⟩ := equality_structural
  have hread : identitySet [.text "user:ann", .text "allUsers"] =
      .ok (OrderedSet.ofList [some ⟨.allUsers, none⟩, some ann]) := by decide +kernel
  have hread' : identitySet [.value ⟨.allUsers, none⟩, .value ann, .text "user:ann"] =
      .ok (OrderedSet.ofList [some ⟨.allUsers, none⟩, some ann]) := by decide +kernel
  have hentries : List.Forall₂ BindingInput.Relists entries others :=
    .cons (.identities _ _ (.of_identitySet_eq_ok hread hread')) (.cons (.same unread) .nil)
  have hpolicy : PolicyInput.resolve
      ⟨some (some entries), some (some "QQ=="), some 1, false⟩ = .ok policy := by
    decide +kernel
  have hdiffer : ¬viewer.Agrees owner := fun h => absurd (Binding.agrees_iff_eq.mp h) (by decide)
  refine ⟨hpolicy, hrelisted _ _ hentries _ _ _ _ _ hpolicy, ?_, ?_, ?_⟩
  · exact haltered policy swapped (.swap [] [] [] hdiffer)
  · exact haltered policy _ (.duplicate [viewer, owner] [] List.mem_cons_self)
  · refine (hcount [swapped, policy]).2 _ fun other => ?_
    simp only [List.mem_cons, List.not_mem_nil, or_false]
    exact ⟨fun h => h.elim Or.inr id, Or.inr⟩

end Policy

end AccessPolicy
