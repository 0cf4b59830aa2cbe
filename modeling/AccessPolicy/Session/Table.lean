/-!
# Tables

A table holds values by name. Setting a name hides what the name stood for before and touches no
other name.
-/

namespace AccessPolicy

/-- Values by name, the latest first. -/
structure Table (α : Type) where
  /-- The names with their values. -/
  entries : List (String × α) := []

namespace Table

variable {α : Type}

/-- The value of a name. -/
def get? (table : Table α) (name : String) : Option α := table.entries.lookup name

/-- Lets a name stand for a value from now on. -/
def set (table : Table α) (name : String) (value : α) : Table α :=
  ⟨(name, value) :: table.entries⟩

/-- A name stands for the value it was set to last. -/
@[simp] theorem get?_set_self (table : Table α) (name : String) (value : α) :
    (table.set name value).get? name = some value := by
  simp only [get?, set, List.lookup_cons_self]

/-- Setting a name leaves the other names alone. -/
theorem get?_set_of_ne (table : Table α) {name other : String} (value : α) (h : other ≠ name) :
    (table.set name value).get? other = table.get? other := by
  have : (other == name) = false := beq_eq_false_iff_ne.2 h
  simp only [get?, set, List.lookup_cons, this]

/-- Setting a name, seen from any name. -/
theorem get?_set (table : Table α) (name other : String) (value : α) :
    (table.set name value).get? other = if other = name then some value else table.get? other := by
  split
  · rename_i h
    rw [h, get?_set_self]
  · rename_i h
    exact get?_set_of_ne table value h

end Table

end AccessPolicy
