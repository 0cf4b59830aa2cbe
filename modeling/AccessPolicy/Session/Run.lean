import AccessPolicy.Session.Step
import AccessPolicy.Session.Table

/-!
# Running sessions

A step takes a session to its successor and gives an answer. A step that fails leaves the session
as it is. Policies, builders and messages are values, so nothing that happens to one name shows
under another.
-/

namespace AccessPolicy

/-- What the names of a session stand for, and whether conversions are logged. -/
structure Session where
  /-- Whether the records of conversions are kept. -/
  logging : Bool := false
  /-- The number of digits that may be written out, if there is a limit. -/
  digits : Option Nat := some 4300
  /-- The builders. -/
  builders : Table Builder := {}
  /-- The policies. -/
  policies : Table Policy := {}
  /-- The lists of bindings. -/
  lists : Table (List (Option Binding)) := {}
  /-- The messages. -/
  messages : Table Wire.Message := {}

namespace Session

/-- What a name stands for, or the failure that it stands for nothing. -/
def find {α : Type} (table : Table α) (name : String) : Except Failure α :=
  match table.get? name with
  | some value => .ok value
  | none => .error (.unknown name)

/-- What becomes of the logs of conversions. -/
def logger (session : Session) : Logger := ⟨session.logging, session.digits⟩

/-- A failure because of something missing. -/
def defective {α : Type} (checked : Except Defect α) : Except Failure α :=
  checked.mapError fun defect => .fault (.defect defect)

/-- A failure because of an unreadable identity. -/
def readable {α : Type} (read : Except Identity.Unreadable α) : Except Failure α :=
  read.mapError fun unreadable => .fault (.unreadable unreadable)

/-- A failure because of a document that is not as it should be. -/
def valid {α : Type} (checked : Wire.Checked α) : Except Failure α :=
  checked.mapError fun details => .fault (.invalid details)

/-- The sequence of bindings that a source stands for. -/
def sequence (session : Session) : BindingsSource → Except Failure (Option (List (Option Binding)))
  | .given entries => readable (resolveEntries entries)
  | .named list => (find session.lists list).map some

/-- The sequence of bindings of a source in the order in which it is to be used. -/
def ordered (session : Session) (source : BindingsSource) (reversed : Bool) :
    Except Failure (Option (List (Option Binding))) :=
  (session.sequence source).map fun entries =>
    if reversed then entries.map List.reverse else entries

/-- Adds an identity to the set of the entry at an index; an entry without a set has no place for
it. -/
def addIdentity (entries : List (Option Binding)) (index : Nat) (identity : Option Identity) :
    Except Defect (IdentitySet × List (Option Binding)) :=
  match entries[index]?.join.bind fun binding => binding.identities.map (binding, ·) with
  | none => .error .identitiesMissing
  | some (binding, identities) =>
    let larger := identities.insert identity
    .ok (larger, entries.set index (some { binding with identities := some larger }))

/-- An answer together with the session in which the next step is taken. -/
abbrev Result := Answer × Session

/-- What a step comes to: what it does if nothing fails, else its failure and no change. -/
def attempt (session : Session) (result : Except Failure Result) : Result :=
  match result with
  | .ok result => result
  | .error failure => (.failed failure, session)

/-- Stages bindings in a builder. -/
def setBindings (session : Session) (name : String) (source : BindingsSource) (reversed : Bool) :
    Result :=
  session.attempt do
    let builder ← find session.builders name
    match (session.ordered source reversed).bind fun entries =>
        defective (builder.setBindings entries) with
    | .error failure => return (.refused failure builder.build, session)
    | .ok changed =>
      return (.staged changed.build, { session with builders := session.builders.set name changed })

/-- Changes a builder in a way that cannot fail. -/
def changeBuilder (session : Session) (name : String) (change : Builder → Builder) : Result :=
  session.attempt do
    let changed := change (← find session.builders name)
    return (.staged changed.build, { session with builders := session.builders.set name changed })

/-- Lets a name stand for a builder. -/
def bindBuilder (session : Session) (target : String) (builder : Builder) :
    Except Failure Result := do
  let policy ← defective builder.build
  return (.policy policy, { session with builders := session.builders.set target builder })

/-- Lets a name stand for a policy. -/
def bindPolicy (session : Session) (target : String) (policy : Policy) : Result :=
  (.policy policy, { session with policies := session.policies.set target policy })

/-- Lets a name stand for a list of bindings. -/
def bindList (session : Session) (target : String) (size : Nat)
    (entries : List (Option Binding)) : Result :=
  (.size size, { session with lists := session.lists.set target entries })

/-- Lets a name stand for a message. -/
def bindMessage (session : Session) (target : String) (message : Wire.Message) : Result :=
  (.message message, { session with messages := session.messages.set target message })

/-- Decodes a message to a policy. -/
def decode (session : Session) (message target : String) (parse : Parse) : Result :=
  session.attempt do
    let shown := session.logger.shown (Conversion.decode parse (← find session.messages message))
    match shown.result with
    | .error _ => return (.decoded shown, session)
    | .ok policy =>
      return (.decoded shown, { session with policies := session.policies.set target policy })

/-- Encodes a policy to a message. -/
def encode (session : Session) (policy target : String) (format : Format) (listing : Listing) :
    Result :=
  session.attempt do
    let shown := session.logger.shown
      (Conversion.encode format (← find session.policies policy) listing)
    match shown.result with
    | .error _ => return (.encoded shown, session)
    | .ok message =>
      return (.encoded shown, { session with messages := session.messages.set target message })

/-- Takes one step. -/
def step (session : Session) : Step → Result
  | .logging on => (.done, { session with logging := on })
  | .newBuilder target => session.attempt (session.bindBuilder target {})
  | .setBindings builder source reversed => session.setBindings builder source reversed
  | .setEtag builder etag => session.changeBuilder builder (·.setEtag etag)
  | .setVersion builder version => session.changeBuilder builder (·.setVersion version)
  | .build builder target => session.attempt do
    return session.bindPolicy target (← defective (← find session.builders builder).build)
  | .toBuilder policy target => session.attempt do
    session.bindBuilder target (← defective (← find session.policies policy).toBuilder)
  | .get policy => session.attempt do
    return (.policy (← find session.policies policy), session)
  | .construct target source etag version => session.attempt do
    let entries ← session.sequence source
    return session.bindPolicy target (← defective (Policy.construct entries etag version))
  | .assign policy field => session.attempt do
    let state ← find session.policies policy
    return (.refused (.fault (.frozen field)) (.ok state), session)
  | .compare left right => session.attempt do
    let left ← find session.policies left
    let right ← find session.policies right
    return (.comparison (Comparison.of left right), session)
  | .distinct policies => session.attempt do
    return (.distinct (countDistinct (← policies.mapM (find session.policies))), session)
  | .newList target entries => session.attempt do
    let entries ← readable (entries.mapM BindingInput.resolve)
    return session.bindList target entries.length entries
  | .listAppend list entry => session.attempt do
    let entries ← find session.lists list
    let entries := entries ++ [← readable entry.resolve]
    return session.bindList list entries.length entries
  | .listAdd list index identity => session.attempt do
    let entries ← find session.lists list
    let (identities, entries) ←
      defective (addIdentity entries index (← readable identity.resolve))
    return session.bindList list identities.size entries
  | .listClear list => session.attempt do
    let _ ← find session.lists list
    return session.bindList list 0 []
  | .validate target document => session.attempt do
    return session.bindMessage target (← valid (Wire.Message.ofValue document))
  | .read target payload => session.attempt do
    return session.bindMessage target (← valid (Wire.Message.ofPayload payload))
  | .write message => session.attempt do
    return (.json (← find session.messages message).toJson, session)
  | .messageVersion message version => session.attempt do
    return session.bindMessage message { ← find session.messages message with version }
  | .messageEtag message etag => session.attempt do
    return session.bindMessage message { ← find session.messages message with etag }
  | .messageAppend message binding condition => session.attempt do
    let current ← find session.messages message
    let binding ← valid (Wire.Binding.ofParts binding condition)
    return session.bindMessage message { current with bindings := current.bindings ++ [binding] }
  | .messageCompare left right => session.attempt do
    let left ← find session.messages left
    let right ← find session.messages right
    return (.equal (left == right), session)
  | .decode message target parse => session.decode message target parse
  | .encode policy target format listing => session.encode policy target format listing

/-- Takes steps one after another and collects their answers. -/
def run (session : Session) : List Step → List Answer × Session
  | [] => ([], session)
  | step :: rest =>
    let (answer, next) := session.step step
    let (answers, last) := next.run rest
    (answer :: answers, last)

end Session

end AccessPolicy
