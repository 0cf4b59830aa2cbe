/-!
# Roles

A role is known by its full name. Names of predefined roles may be given without the leading
`roles/`, which is then supplied; names that belong to a project or an organization are complete.
-/

namespace AccessPolicy

/-- A role, whose name may be absent when the role was put together by hand. -/
structure Role where
  /-- The full name of the role. -/
  name : Option String
  deriving DecidableEq, Repr

namespace Role

/-- What the names of predefined roles begin with. -/
def predefined : String := "roles/"

/-- What every complete role name begins with, by where the role is defined. -/
def homes : List String := [predefined, "projects/", "organizations/"]

/-- Whether a role name says where the role is defined. -/
def isQualified (name : String) : Bool :=
  homes.any fun home => home.toList.isPrefixOf name.toList

/-- A role name, made complete as that of a predefined role if need be. -/
def qualify (name : String) : String := if isQualified name then name else predefined ++ name

/-- The role of a full or predefined name. -/
def ofName (name : String) : Role := ⟨some (qualify name)⟩

/-- The role that may do everything. -/
def owner : Role := ofName "owner"

/-- The role that may change resources. -/
def editor : Role := ofName "editor"

/-- The role that may look at resources. -/
def viewer : Role := ofName "viewer"

/-- The roles that predate fine-grained access control, with their short names. -/
def legacy : List (String × Role) := [("owner", owner), ("editor", editor), ("viewer", viewer)]

/-- A role name is qualified exactly when it starts with one of the homes of roles. -/
theorem isQualified_iff {name : String} :
    isQualified name = true ↔
      ∃ home ∈ ["roles/", "projects/", "organizations/"], home.toList <+: name.toList := by
  simp only [isQualified, homes, predefined, List.any_eq_true, List.isPrefixOf_iff_prefix]

/-- Qualifying gives a qualified name. -/
theorem isQualified_qualify (name : String) : isQualified (qualify name) = true := by
  unfold qualify
  split
  · assumption
  · simp only [isQualified, homes, List.any_cons, String.toList_append, Bool.or_eq_true,
      List.isPrefixOf_iff_prefix, List.prefix_append, true_or]

/-- Qualifying twice is qualifying once. -/
@[simp] theorem qualify_qualify (name : String) : qualify (qualify name) = qualify name := by
  rw [qualify, if_pos (isQualified_qualify name)]

end Role

end AccessPolicy
