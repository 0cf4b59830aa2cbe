/-!
# Ordered sets

A finite set is kept as its strictly increasing member list. Two sets with the same members are
therefore the same value, and every listing of a set comes out in one order.
-/

namespace AccessPolicy

/-- A finite set over an ordered type, kept as its strictly increasing member list. -/
structure OrderedSet (α : Type) [Ord α] where
  /-- The members, smallest first. -/
  toList : List α
  /-- No member repeats and none is out of order. -/
  increasing : toList.Pairwise fun a b => compare a b = .lt
  deriving DecidableEq, Repr

namespace OrderedSet

variable {α : Type} [Ord α]

/-- The set without members. -/
def empty : OrderedSet α := ⟨[], .nil⟩

instance : Inhabited (OrderedSet α) := ⟨empty⟩

instance : Membership α (OrderedSet α) := ⟨fun s a => a ∈ s.toList⟩

instance [DecidableEq α] (a : α) (s : OrderedSet α) : Decidable (a ∈ s) :=
  inferInstanceAs (Decidable (a ∈ s.toList))

/-- Membership is membership in the listing. -/
theorem mem_iff {a : α} {s : OrderedSet α} : a ∈ s ↔ a ∈ s.toList := Iff.rfl

/-- The number of members. -/
def size (s : OrderedSet α) : Nat := s.toList.length

/-- Puts a value at its place in an increasing list, unless it is there already. -/
def place (a : α) : List α → List α
  | [] => [a]
  | b :: rest =>
    match compare a b with
    | .lt => a :: b :: rest
    | .eq => b :: rest
    | .gt => b :: place a rest

/-- Placing adds the placed value and nothing else. -/
theorem mem_place [Std.LawfulEqOrd α] {a x : α} {l : List α} :
    x ∈ place a l ↔ x = a ∨ x ∈ l := by
  induction l with
  | nil => simp only [place, List.mem_singleton, List.not_mem_nil, or_false]
  | cons b rest ih =>
    simp only [place]
    split
    · simp only [List.mem_cons]
    · rename_i h
      have hab : a = b := Std.LawfulEqOrd.eq_of_compare h
      subst hab
      simp only [List.mem_cons]
      exact ⟨Or.inr, fun h => h.elim Or.inl id⟩
    · simp only [List.mem_cons, ih]
      exact ⟨fun h => h.elim (Or.inr ∘ Or.inl) (Or.imp_right Or.inr),
        fun h => h.elim (Or.inr ∘ Or.inl) (Or.imp_right Or.inr)⟩

/-- Placing keeps a list increasing. -/
theorem place_increasing [Std.TransOrd α] [Std.LawfulEqOrd α] {a : α} {l : List α}
    (h : l.Pairwise fun a b => compare a b = .lt) :
    (place a l).Pairwise fun a b => compare a b = .lt := by
  induction l with
  | nil => simp only [place, List.pairwise_cons, List.not_mem_nil, false_implies, implies_true,
      List.Pairwise.nil, and_self]
  | cons b rest ih =>
    obtain ⟨hhead, htail⟩ := List.pairwise_cons.1 h
    simp only [place]
    split
    · rename_i hab
      refine List.pairwise_cons.2 ⟨fun x hx => ?_, h⟩
      rcases List.mem_cons.1 hx with rfl | hx
      · exact hab
      · exact Std.TransCmp.lt_trans hab (hhead x hx)
    · exact h
    · rename_i hab
      refine List.pairwise_cons.2 ⟨fun x hx => ?_, ih htail⟩
      rcases mem_place.1 hx with rfl | hx
      · exact Std.OrientedCmp.lt_of_gt hab
      · exact hhead x hx

section Lawful

variable [Std.TransOrd α] [Std.LawfulEqOrd α]

/-- Adds a member; a value that is already a member changes nothing. -/
def insert (s : OrderedSet α) (a : α) : OrderedSet α :=
  ⟨place a s.toList, place_increasing s.increasing⟩

/-- The set of the values of a list, in whatever order and number they come. -/
def ofList : List α → OrderedSet α
  | [] => empty
  | a :: rest => (ofList rest).insert a

@[simp] theorem mem_insert {s : OrderedSet α} {a x : α} : x ∈ s.insert a ↔ x = a ∨ x ∈ s :=
  mem_place

@[simp] theorem mem_ofList {l : List α} {x : α} : x ∈ ofList l ↔ x ∈ l := by
  induction l with
  | nil => exact Iff.rfl
  | cons a rest ih => simp only [ofList, mem_insert, ih, List.mem_cons]

/-- An increasing list is determined by its members. -/
private theorem eq_of_mem_iff {l m : List α}
    (hl : l.Pairwise fun a b => compare a b = .lt) (hm : m.Pairwise fun a b => compare a b = .lt)
    (h : ∀ x, x ∈ l ↔ x ∈ m) : l = m := by
  have hirrefl : ∀ a : α, compare a a ≠ .lt := fun a => by simp only [Std.ReflCmp.compare_self,
    ne_eq, reduceCtorEq, not_false_eq_true]
  have hasymm : ∀ a b : α, compare a b = .lt → compare b a ≠ .lt := fun a b hab hba =>
    hirrefl a (Std.TransCmp.lt_trans hab hba)
  induction l generalizing m with
  | nil =>
    cases m with
    | nil => rfl
    | cons b m => exact absurd ((h b).2 List.mem_cons_self) List.not_mem_nil
  | cons a l ih =>
    cases m with
    | nil => exact absurd ((h a).1 List.mem_cons_self) List.not_mem_nil
    | cons b m =>
      obtain ⟨hal, htail⟩ := List.pairwise_cons.1 hl
      obtain ⟨hbm, htail'⟩ := List.pairwise_cons.1 hm
      have hab : a = b := by
        rcases List.mem_cons.1 ((h a).1 List.mem_cons_self) with hab | ham
        · exact hab
        · rcases List.mem_cons.1 ((h b).2 List.mem_cons_self) with hba | hbl
          · exact hba.symm
          · exact absurd (hbm a ham) (hasymm a b (hal b hbl))
      subst hab
      congr 1
      refine ih htail htail' fun x => ⟨fun hx => ?_, fun hx => ?_⟩
      · rcases List.mem_cons.1 ((h x).1 (List.mem_cons_of_mem a hx)) with rfl | hx'
        · exact absurd (hal x hx) (hirrefl x)
        · exact hx'
      · rcases List.mem_cons.1 ((h x).2 (List.mem_cons_of_mem a hx)) with rfl | hx'
        · exact absurd (hbm x hx) (hirrefl x)
        · exact hx'

/-- Sets with the same members are equal. -/
theorem ext {s t : OrderedSet α} (h : ∀ x, x ∈ s ↔ x ∈ t) : s = t := by
  have := eq_of_mem_iff s.increasing t.increasing h
  cases s
  cases t
  simpa only [mk.injEq] using this

end Lawful

end OrderedSet

end AccessPolicy
