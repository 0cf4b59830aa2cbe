import AccessPolicy.Binding
import AccessPolicy.Text.Quoted
import AccessPolicy.Wire.Detail

/-!
# Faults

Everything that can go wrong is one of a few faults, each with its own report. The reports are
filed under categories, which form a tree: every category but the root belongs to a wider one, and
has a report of its own for when nothing more is known.
-/

namespace AccessPolicy

/-- What can go wrong. -/
inductive Fault where
  /-- Something is missing in a sequence of bindings. -/
  | defect (defect : Defect)
  /-- A text is not the text of an identity. -/
  | unreadable (unreadable : Identity.Unreadable)
  /-- The etag of a policy is not Base64. -/
  | etag (etag : String)
  /-- A document is not a message. -/
  | invalid (details : List Wire.Detail)
  /-- A field of a policy was to be changed. -/
  | frozen (field : String)
  /-- An integer has more digits than may be written out. -/
  | unwritable (most : Nat)
  deriving DecidableEq, Repr

namespace Fault

/-- The categories of reports. -/
inductive Category where
  /-- Any failure to build or convert a policy; the root. -/
  | policy
  /-- Something required is absent. -/
  | precondition
  | bindingsMissing
  | bindingMissing
  | roleMissing
  | identitiesMissing
  /-- Something is present but not acceptable. -/
  | argument
  | identityMissing
  | etag
  | identity
  deriving DecidableEq, Repr

namespace Category

/-- The category that a category belongs to. -/
def parent? : Category → Option Category
  | policy => none
  | precondition | argument | identity => some policy
  | bindingsMissing | bindingMissing | roleMissing | identitiesMissing => some precondition
  | identityMissing | etag => some argument

/-- The number of categories above a category. -/
def depth : Category → Nat
  | policy => 0
  | precondition | argument | identity => 1
  | bindingsMissing | bindingMissing | roleMissing | identitiesMissing | identityMissing | etag => 2

theorem depth_of_parent? {category parent : Category} (h : category.parent? = some parent) :
    parent.depth < category.depth := by
  cases category <;> simp only [parent?, Option.some.injEq, reduceCtorEq] at h <;> subst h <;>
    decide

/-- The categories that a category belongs to, nearest first. -/
def ancestors (category : Category) : List Category :=
  match h : category.parent? with
  | none => []
  | some parent =>
    have := depth_of_parent? h
    parent :: parent.ancestors
termination_by category.depth

/-- The report of a category when nothing more is known. -/
def message : Category → String
  | policy | precondition | argument => "invalid policy"
  | bindingsMissing => "The provided list of bindings cannot be None."
  | bindingMissing => "A binding in the list cannot be None."
  | roleMissing => "The role cannot be None."
  | identitiesMissing => "A role cannot be assigned to a None set of identities."
  | identityMissing => "None identities are not permitted."
  | etag => "etag is not valid base64"
  | identity => "illegal identity string"

/-- A report of a category: the given words, or those of the category if there are none. -/
def report (category : Category) : Option String → String
  | none => category.message
  | some words => if words.isEmpty then category.message else words

end Category

/-- The category of a defect. -/
def ofDefect : Defect → Category
  | .bindingsMissing => .bindingsMissing
  | .bindingMissing => .bindingMissing
  | .roleMissing => .roleMissing
  | .identitiesMissing => .identitiesMissing
  | .identityMissing => .identityMissing

/-- The report on a fault; a list of details is its own report. -/
def message : Fault → String
  | .defect missing => (ofDefect missing).message
  | .unreadable report => report.message
  | .etag given => "etag is not valid base64: " ++ Text.quoted given
  | .invalid _ => ""
  | .frozen field => "cannot assign to field " ++ Text.quoted field
  | .unwritable most =>
    "Exceeds the limit (" ++ toString most ++ " digits) for integer string conversion; " ++
      "use sys.set_int_max_str_digits() to increase the limit"

end Fault

end AccessPolicy
