/-!
# Identities

An identity is a principal that can be granted a role. It is written as the name of its kind,
followed by a colon and a value unless the kind stands for itself. Reading accepts exactly the
canonical texts, while an identity put together by hand may have any kind with any value.
-/

namespace AccessPolicy

/-- The kinds of principal. -/
inductive Kind where
  | user
  | serviceAccount
  | group
  | domain
  | allUsers
  | allAuthenticatedUsers
  | projectOwner
  | projectEditor
  | projectViewer
  deriving DecidableEq, Repr

namespace Kind

/-- All kinds. -/
def all : List Kind :=
  [user, serviceAccount, group, domain, allUsers, allAuthenticatedUsers, projectOwner,
    projectEditor, projectViewer]

/-- The name that a kind has in the text of an identity. -/
def name : Kind → String
  | user => "user"
  | serviceAccount => "serviceAccount"
  | group => "group"
  | domain => "domain"
  | allUsers => "allUsers"
  | allAuthenticatedUsers => "allAuthenticatedUsers"
  | projectOwner => "projectOwner"
  | projectEditor => "projectEditor"
  | projectViewer => "projectViewer"

/-- The kind with the given name. -/
def ofName? (name : String) : Option Kind := all.find? fun kind => kind.name == name

/-- Whether the kind denotes the public as a whole, and so takes no value. -/
def isPublic : Kind → Bool
  | allUsers | allAuthenticatedUsers => true
  | _ => false

theorem mem_all (kind : Kind) : kind ∈ all := by
  cases kind <;> decide

/-- Different kinds have different names. -/
theorem name_inj {a b : Kind} : a.name = b.name ↔ a = b := by
  cases a <;> cases b <;> decide

@[simp] theorem ofName?_name (kind : Kind) : ofName? kind.name = some kind := by
  cases kind <;> decide

/-- Looking up a name finds the kind of that name and no other. -/
theorem ofName?_eq_some_iff {name : String} {kind : Kind} :
    ofName? name = some kind ↔ kind.name = name := by
  constructor
  · intro h
    simpa only [beq_iff_eq] using List.find?_some h
  · rintro rfl
    exact ofName?_name kind

/-- No kind has a colon in its name. -/
theorem colon_notMem_name (kind : Kind) : ':' ∉ kind.name.toList := by
  cases kind <;> decide

end Kind

/-- A principal that can be granted a role. -/
structure Identity where
  /-- What sort of principal it is. -/
  kind : Kind
  /-- The address, domain or project that singles the principal out. -/
  value : Option String := none
  deriving DecidableEq, Repr

namespace Identity

/-- Identities are ordered by the name of their kind, then those without a value come first, then
by value. -/
instance : Ord Identity :=
  ⟨compareLex (compareOn (·.kind.name)) (compareOn (·.value))⟩

instance : Std.TransOrd Identity :=
  inferInstanceAs (Std.TransCmp (compareLex (compareOn fun i : Identity => i.kind.name)
    (compareOn fun i : Identity => i.value)))

instance : Std.LawfulEqOrd Identity where
  compare_self := Std.ReflCmp.compare_self
  eq_of_compare {a b} h := by
    have h : (compareOn (fun i : Identity => i.kind.name) a b).then
        (compareOn (fun i : Identity => i.value) a b) = .eq := h
    rw [Ordering.then_eq_eq] at h
    obtain ⟨kind, value⟩ := h
    cases a
    cases b
    exact mk.injEq .. ▸ ⟨Kind.name_inj.1 (Std.LawfulEqOrd.eq_of_compare kind),
      Std.LawfulEqOrd.eq_of_compare value⟩

/-- The text of an identity: the name of its kind and, if it has a value, a colon and the value. -/
def text (identity : Identity) : String :=
  match identity.value with
  | none => identity.kind.name
  | some value => identity.kind.name ++ ":" ++ value

/-- Whether the identity has a value exactly when its kind takes one, and then a nonempty value
without a colon. -/
def IsCanonical (identity : Identity) : Prop :=
  match identity.value with
  | none => identity.kind.isPublic = true
  | some value => identity.kind.isPublic = false ∧ value ≠ "" ∧ ':' ∉ value.toList

instance (identity : Identity) : Decidable identity.IsCanonical := by
  unfold IsCanonical
  split <;> infer_instance

/-- Why a text is not the text of a canonical identity. -/
inductive Flaw where
  /-- It has more than one colon. -/
  | manyColons
  /-- What stands before the colon names no kind. -/
  | unknownKind
  /-- The kind takes a value, and there is no colon. -/
  | valueRequired
  /-- The kind takes no value, and there is a colon. -/
  | valueNotTaken
  /-- Nothing follows the colon. -/
  | valueEmpty
  deriving DecidableEq, Repr

/-- A text that could not be read as an identity. -/
structure Unreadable where
  /-- What is wrong with it. -/
  flaw : Flaw
  /-- The text itself. -/
  text : String
  deriving DecidableEq, Repr

/-- The report on an unreadable text. -/
def Unreadable.message (unreadable : Unreadable) : String :=
  let shown := "\"" ++ unreadable.text ++ "\""
  match unreadable.flaw with
  | .manyColons => "Illegal identity string: " ++ shown
  | .unknownKind => "Unexpected identity type in " ++ shown
  | .valueRequired => "Identity " ++ shown ++ " requires a value"
  | .valueNotTaken => "Identity " ++ shown ++ " does not take a value"
  | .valueEmpty => "Identity " ++ shown ++ " has an empty value"

/-- The identity of a kind name and of what follows it, which is the colon and the value or
nothing. -/
def ofParts (name following : List Char) : Except Flaw Identity :=
  match Kind.ofName? (String.ofList name) with
  | none => .error .unknownKind
  | some kind =>
    match following with
    | [] => if kind.isPublic then .ok ⟨kind, none⟩ else .error .valueRequired
    | _ :: value =>
      if kind.isPublic then .error .valueNotTaken
      else if value.isEmpty then .error .valueEmpty
      else .ok ⟨kind, some (String.ofList value)⟩

/-- Reads the text of an identity; of several flaws the first in the order of `Flaw` is found. -/
def ofText (text : String) : Except Unreadable Identity :=
  let cs := text.toList
  if 1 < cs.count ':' then .error ⟨.manyColons, text⟩
  else (ofParts (cs.takeWhile (· ≠ ':')) (cs.dropWhile (· ≠ ':'))).mapError (⟨·, text⟩)

end Identity

end AccessPolicy
