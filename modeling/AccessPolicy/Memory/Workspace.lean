import AccessPolicy.Memory.Objects
import AccessPolicy.Session.Run

/-!
# Sessions in memory

A workspace takes the steps of a session with objects in memory in place of values. The names of
builders, policies and lists stand for objects, and answers tell what the objects are at the time.
What a caller makes for a single step has frozen identity sets. The bindings in a list have
identity sets that can grow. A message shares nothing with a policy: decoding makes new bindings,
and encoding takes no more than texts from a policy.

A step is an action on the workspace. If it fails, the next step is taken in the workspace that is
left behind, with all that was done until then.
-/

namespace AccessPolicy

/-- What the names of a session stand for in memory, and whether conversions are logged. -/
structure Workspace where
  /-- Whether the records of conversions are kept. -/
  logging : Bool := false
  /-- The number of digits that may be written out, if there is a limit. -/
  digits : Option Nat := some 4300
  /-- The objects. -/
  memory : Memory := {}
  /-- The builders. -/
  builders : Table BuilderObject := {}
  /-- The policies. -/
  policies : Table PolicyObject := {}
  /-- Where the lists of bindings lie. -/
  lists : Table Place := {}
  /-- The messages. -/
  messages : Table Wire.Message := {}

namespace Workspace

variable {α : Type}

/-- What becomes of the logs of conversions. -/
def logger (workspace : Workspace) : Logger := ⟨workspace.logging, workspace.digits⟩

/-- The policy that a name stands for, as it is at present. -/
def policy (workspace : Workspace) (name : String) : Except Failure Policy :=
  (Session.find workspace.policies name).map workspace.memory.policy

/-- Finds what a name stands for. -/
def find (table : Workspace → Table α) (name : String) : Action Failure Workspace α := do
  MonadExcept.ofExcept (Session.find (table (← get)) name)

/-- Fails because of something missing. -/
def defective (action : Action Defect Workspace α) : Action Failure Workspace α :=
  EStateM.adaptExcept (fun defect => .fault (.defect defect)) action

/-- Works on the memory. -/
def inMemory (action : Action Defect Memory α) : Action Defect Workspace α :=
  Action.within memory (fun memory workspace => { workspace with memory }) action

/-- Makes something in memory. -/
def make (maker : Memory → α × Memory) : Action Failure Workspace α :=
  modifyGet fun workspace =>
    let (made, memory) := maker workspace.memory
    (made, { workspace with memory })

/-- Calls something on a builder. The name stands for what has become of it, also after a
failure. -/
def calling (name : String) (builder : BuilderObject)
    (action : Action Defect (BuilderObject × Memory) α) : Action Defect Workspace α :=
  Action.within (fun workspace => (builder, workspace.memory))
    (fun (builder, memory) workspace =>
      { workspace with memory, builders := workspace.builders.set name builder }) action

/-- Calls something on the builder of a name. -/
def onBuilder (name : String) (action : Action Defect (BuilderObject × Memory) α) :
    Action Failure Workspace α := do
  defective (calling name (← find builders name) action)

/-- What the builder of a name builds, to look at. -/
def state (name : String) : Action Failure Workspace (Except Defect Policy) := do
  Action.settled (calling name (← find builders name) Memory.built)

/-- The objects of a source, which are made for it unless they are in a list. -/
def sequence : BindingsSource → Action Failure Workspace (Option (List (Option BindingObject)))
  | .given entries => do
    match ← MonadExcept.ofExcept (Session.readable (resolveEntries entries)) with
    | none => return none
    | some entries => return some (← make fun memory => memory.objects true entries)
  | .named list => do
    let place ← find lists list
    return some ((← get).memory.sequence place)

/-- The objects of a source in the order in which they are to be used. -/
def ordered (source : BindingsSource) (reversed : Bool) :
    Action Failure Workspace (Option (List (Option BindingObject))) := do
  let objects ← sequence source
  return if reversed then objects.map List.reverse else objects

/-- Stages bindings in a builder. -/
def setBindings (name : String) (source : BindingsSource) (reversed : Bool) :
    Action Failure Workspace Answer := do
  let _ ← find builders name
  match ← Action.settled (do onBuilder name (Memory.setBindings (← ordered source reversed))) with
  | .error failure => return .refused failure (← state name)
  | .ok () => return .staged (← state name)

/-- Changes a builder and leaves its bindings where they are. -/
def changeBuilder (name : String) (etag : Option String → Option String) (version : Int → Int) :
    Action Failure Workspace Answer := do
  onBuilder name (Memory.setFields etag version)
  return .staged (← state name)

/-- Lets a name stand for a builder. -/
def bindBuilder (target : String) (builder : BuilderObject) : Action Failure Workspace Answer := do
  let (policy, builder) ← defective (inMemory (Action.holding builder Memory.built))
  modify fun workspace => { workspace with builders := workspace.builders.set target builder }
  return .policy policy

/-- Lets a name stand for a policy. -/
def bindPolicy (target : String) (policy : PolicyObject) : Action Failure Workspace Answer := do
  modify fun workspace => { workspace with policies := workspace.policies.set target policy }
  return .policy ((← get).memory.policy policy)

/-- Lets a name stand for a message. -/
def bindMessage (target : String) (message : Wire.Message) : Action Failure Workspace Answer := do
  modify fun workspace => { workspace with messages := workspace.messages.set target message }
  return .message message

/-- The outcome of a conversion and its records. -/
def converted (conversion : Logger → Action Fault Bench α) :
    Action Failure Workspace (Except Fault α × List Record) := do
  let logger := (← get).logger
  Action.within (fun workspace => ({ memory := workspace.memory } : Bench))
    (fun bench workspace => { workspace with memory := bench.memory }) do
      let result ← Action.settled (conversion logger)
      return (result, (← get).records)

/-- Decodes a message to a new policy. -/
def decode (message target : String) (parse : Parse) : Action Failure Workspace Answer := do
  let message ← find messages message
  let (result, records) ← converted fun logger => Memory.decode logger parse message
  match result with
  | .error fault => return .decoded ⟨.error fault, records⟩
  | .ok policy =>
    modify fun workspace => { workspace with policies := workspace.policies.set target policy }
    return .decoded ⟨.ok ((← get).memory.policy policy), records⟩

/-- Encodes a policy to a message. -/
def encode (policy target : String) (format : Format) (listing : Listing) :
    Action Failure Workspace Answer := do
  let policy ← find policies policy
  let (result, records) ← converted fun logger => Memory.encode logger format listing policy
  match result with
  | .error fault => return .encoded ⟨.error fault, records⟩
  | .ok message =>
    modify fun workspace => { workspace with messages := workspace.messages.set target message }
    return .encoded ⟨.ok message, records⟩

/-- What is done in a step. -/
def act : Step → Action Failure Workspace Answer
  | .logging on => do
    modify fun workspace => { workspace with logging := on }
    return .done
  | .newBuilder target => do bindBuilder target (← make Memory.newBuilder)
  | .setBindings builder source reversed => setBindings builder source reversed
  | .setEtag builder etag => changeBuilder builder (fun _ => etag) id
  | .setVersion builder version => changeBuilder builder id fun _ => version
  | .build builder target => do bindPolicy target (← onBuilder builder Memory.build)
  | .toBuilder policy target => do
    let policy ← find policies policy
    bindBuilder target (← defective (inMemory (Memory.toBuilder policy)))
  | .get policy => do
    return .policy (← MonadExcept.ofExcept ((← get).policy policy))
  | .construct target source etag version => do
    let objects ← sequence source
    bindPolicy target (← defective (inMemory (Memory.construct objects etag version)))
  | .assign policy field => do
    let state ← MonadExcept.ofExcept ((← get).policy policy)
    return .refused (.fault (.frozen field)) (.ok state)
  | .compare left right => do
    let left ← MonadExcept.ofExcept ((← get).policy left)
    let right ← MonadExcept.ofExcept ((← get).policy right)
    return .comparison (Comparison.of left right)
  | .distinct policies => do
    return .distinct (countDistinct (← MonadExcept.ofExcept (policies.mapM (← get).policy)))
  | .newList target entries => do
    let entries ← MonadExcept.ofExcept (Session.readable (entries.mapM BindingInput.resolve))
    let objects ← make fun memory => memory.objects false entries
    let place ← make fun memory => memory.newSequence objects
    modify fun workspace => { workspace with lists := workspace.lists.set target place }
    return .size objects.length
  | .listAppend list entry => do
    let place ← find lists list
    let entry ← MonadExcept.ofExcept (Session.readable entry.resolve)
    let objects ← make fun memory => memory.objects false [entry]
    let objects := (← get).memory.sequence place ++ objects
    modify fun workspace => { workspace with memory := workspace.memory.setSequence place objects }
    return .size objects.length
  | .listAdd list index identity => do
    let place ← find lists list
    let identity ← MonadExcept.ofExcept (Session.readable identity.resolve)
    let identities ← defective (inMemory (Memory.addIdentity place index identity))
    return .size identities.size
  | .listClear list => do
    let place ← find lists list
    modify fun workspace => { workspace with memory := workspace.memory.setSequence place [] }
    return .size 0
  | .validate target document => do
    bindMessage target (← MonadExcept.ofExcept (Session.valid (Wire.Message.ofValue document)))
  | .read target payload => do
    bindMessage target (← MonadExcept.ofExcept (Session.valid (Wire.Message.ofPayload payload)))
  | .write message => do
    return .json (← find messages message).toJson
  | .messageVersion message version => do
    bindMessage message { ← find messages message with version }
  | .messageEtag message etag => do
    bindMessage message { ← find messages message with etag }
  | .messageAppend message binding condition => do
    let current ← find messages message
    let binding ← MonadExcept.ofExcept (Session.valid (Wire.Binding.ofParts binding condition))
    bindMessage message { current with bindings := current.bindings ++ [binding] }
  | .messageCompare left right => do
    let left ← find messages left
    let right ← find messages right
    return .equal (left == right)
  | .decode message target parse => decode message target parse
  | .encode policy target format listing => encode policy target format listing

/-- An answer together with the workspace in which the next step is taken. -/
abbrev Result := Answer × Workspace

/-- What an action answers. An action that fails answers with its failure. -/
def answered : EStateM.Result Failure Workspace Answer → Result
  | .ok answer next => (answer, next)
  | .error failure next => (.failed failure, next)

/-- Takes one step. -/
def step (workspace : Workspace) (step : Step) : Result := answered (act step workspace)

/-- Takes steps one after another and collects their answers. -/
def run (workspace : Workspace) : List Step → List Answer × Workspace
  | [] => ([], workspace)
  | step :: rest =>
    let (answer, next) := workspace.step step
    let (answers, last) := next.run rest
    (answer :: answers, last)

end Workspace

end AccessPolicy
