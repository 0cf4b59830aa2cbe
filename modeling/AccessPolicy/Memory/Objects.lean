import AccessPolicy.Conversion
import AccessPolicy.Memory.Action

/-!
# Bindings in memory

Identity sets and sequences of bindings are objects in memory. Whoever holds the place of an object
sees what becomes of it, so an object with two holders can be changed behind the back of one of
them. Policies and builders guard against that: they check what they are given and keep copies of
it, in which every identity set is frozen. A frozen set never changes and is its own copy.

What may fail is an action on the memory, and on the builder if there is one. A failure leaves both
as they are at the time, with all that was made until then.
-/

namespace AccessPolicy

/-- Where an object lies in memory, counted in order of creation. -/
abbrev Place := Nat

/-- A set of identities as an object. -/
structure SetObject where
  /-- The members. -/
  members : IdentitySet
  /-- Whether the members are there for good. -/
  frozen : Bool
  deriving DecidableEq, Repr

/-- A binding as an object: its identity set is another object. -/
structure BindingObject where
  /-- The role that is granted. -/
  role : Option Role
  /-- Where the set of those to whom it is granted lies. -/
  identities : Option Place
  /-- When the grant applies. -/
  condition : Option Condition
  deriving DecidableEq, Repr

/-- A policy as an object: its bindings are another object. -/
structure PolicyObject where
  /-- Where the grants lie. -/
  bindings : Place
  /-- The token of the stored policy that an update replaces. -/
  etag : Option String
  /-- The version of the policy's schema. -/
  version : Int
  deriving DecidableEq, Repr

/-- A builder as an object: its bindings are another object. -/
structure BuilderObject where
  /-- Where the grants so far lie. -/
  bindings : Place
  /-- The etag so far. -/
  etag : Option String
  /-- The version so far. -/
  version : Int
  deriving DecidableEq, Repr

/-- The identity sets and the sequences of bindings that there are, earliest first. -/
structure Memory where
  /-- The identity sets. -/
  sets : List SetObject := []
  /-- The sequences of bindings. -/
  sequences : List (List (Option BindingObject)) := []
  deriving DecidableEq, Repr

namespace Memory

/-! ## Looking -/

/-- The members of the set at a place. -/
def members? (memory : Memory) (place : Place) : Option IdentitySet :=
  memory.sets[place]?.map SetObject.members

/-- The binding that an object is at present. -/
def binding (memory : Memory) (object : BindingObject) : Binding :=
  ⟨object.role, object.identities.bind memory.members?, object.condition⟩

/-- The bindings that objects are at present. -/
def values (memory : Memory) (objects : List (Option BindingObject)) : List (Option Binding) :=
  objects.map (Option.map memory.binding)

/-- The objects of the sequence at a place. -/
def sequence (memory : Memory) (place : Place) : List (Option BindingObject) :=
  memory.sequences[place]?.getD []

/-- The bindings of the sequence at a place, as they are at present. -/
def entries (memory : Memory) (place : Place) : List (Option Binding) :=
  memory.values (memory.sequence place)

/-- The policy that an object is at present. -/
def policy (memory : Memory) (object : PolicyObject) : Policy :=
  ⟨(memory.entries object.bindings).filterMap id, object.etag, object.version⟩

/-- What a builder holds at present. -/
def builder (memory : Memory) (object : BuilderObject) : Builder :=
  ⟨(memory.entries object.bindings).filterMap id, object.etag, object.version⟩

/-! ## Creating -/

/-- Makes a set. -/
def newSet (memory : Memory) (object : SetObject) : Place × Memory :=
  (memory.sets.length, { memory with sets := memory.sets ++ [object] })

/-- Makes a sequence. -/
def newSequence (memory : Memory) (objects : List (Option BindingObject)) : Place × Memory :=
  (memory.sequences.length, { memory with sequences := memory.sequences ++ [objects] })

/-- Makes an object of each entry that is there, one after another. -/
def each {α : Type} (make : Memory → α → BindingObject × Memory) :
    Memory → List (Option α) → List (Option BindingObject) × Memory
  | memory, [] => ([], memory)
  | memory, none :: rest =>
    let (others, memory) := each make memory rest
    (none :: others, memory)
  | memory, some item :: rest =>
    let (object, memory) := make memory item
    let (others, memory) := each make memory rest
    (some object :: others, memory)

/-- Makes an object of a binding, with a new identity set. -/
def newBinding (frozen : Bool) (memory : Memory) (binding : Binding) : BindingObject × Memory :=
  match binding.identities with
  | none => (⟨binding.role, none, binding.condition⟩, memory)
  | some members =>
    let (place, memory) := memory.newSet ⟨members, frozen⟩
    (⟨binding.role, some place, binding.condition⟩, memory)

/-- Makes objects of the entries of a sequence. -/
def objects (frozen : Bool) (memory : Memory) (entries : List (Option Binding)) :
    List (Option BindingObject) × Memory :=
  each (newBinding frozen) memory entries

/-! ## Copying -/

/-- The frozen set with the members of a set: the set itself if it is frozen, else a new one. -/
def frozenSet (memory : Memory) (place : Place) : Place × Memory :=
  match memory.sets[place]? with
  | none => (place, memory)
  | some object => if object.frozen then (place, memory) else memory.newSet ⟨object.members, true⟩

/-- A copy of a binding, with a frozen identity set and a condition of the same three parts. -/
def copyBinding (memory : Memory) (object : BindingObject) : BindingObject × Memory :=
  let condition := object.condition.map fun condition =>
    ⟨condition.title, condition.description, condition.expression⟩
  match object.identities with
  | none => (⟨object.role, none, condition⟩, memory)
  | some place =>
    let (copy, memory) := memory.frozenSet place
    (⟨object.role, some copy, condition⟩, memory)

/-- A new sequence of copies of bindings, if there is no defect in them. -/
def copyBindings (source : Option (List (Option BindingObject))) : Action Defect Memory Place := do
  let _ ← MonadExcept.ofExcept (checkedBindings (source.map (← get).values))
  let copies ← modifyGet fun memory => each copyBinding memory (source.getD [])
  modifyGet fun memory => memory.newSequence copies

/-! ## Policies and builders -/

/-- Puts a policy together from copies of bindings. -/
def construct (source : Option (List (Option BindingObject))) (etag : Option String)
    (version : Int) : Action Defect Memory PolicyObject := do
  let place ← copyBindings source
  return ⟨place, etag, version⟩

/-- Makes an empty builder. -/
def newBuilder (memory : Memory) : BuilderObject × Memory :=
  let (place, memory) := memory.newSequence []
  (⟨place, none, 0⟩, memory)

/-- What a call on a builder does to the memory. -/
def beside {α : Type} (action : Action Defect Memory α) :
    Action Defect (BuilderObject × Memory) α :=
  Action.within Prod.snd (fun memory (builder, _) => (builder, memory)) action

/-- Stages copies of bindings in a builder. -/
def setBindings (source : Option (List (Option BindingObject))) :
    Action Defect (BuilderObject × Memory) Unit := do
  let place ← beside (copyBindings source)
  modify fun (builder, memory) => ({ builder with bindings := place }, memory)

/-- Changes a builder and leaves its bindings where they are. -/
def setFields (etag : Option String → Option String) (version : Int → Int) :
    Action Defect (BuilderObject × Memory) Unit :=
  modify fun (builder, memory) =>
    ({ builder with etag := etag builder.etag, version := version builder.version }, memory)

/-- The policy of copies of what a builder holds. -/
def build : Action Defect (BuilderObject × Memory) PolicyObject := do
  let (builder, memory) ← get
  beside (construct (some (memory.sequence builder.bindings)) builder.etag builder.version)

/-- A new builder that holds copies of a policy's bindings. -/
def toBuilder (policy : PolicyObject) : Action Defect Memory BuilderObject := do
  let builder ← modifyGet newBuilder
  let bindings := (← get).sequence policy.bindings
  let (_, opened) ← Action.holding builder (setBindings (some bindings))
  return { opened with etag := policy.etag, version := policy.version }

/-- Puts a policy together in a new builder, in which bindings, an etag and a version are staged one
after another. -/
def assemble (source : Option (List (Option BindingObject))) (etag : Option String)
    (version : Int) : Action Defect Memory PolicyObject := do
  let builder ← modifyGet newBuilder
  let (policy, _) ← Action.holding builder do
    setBindings source
    setFields (fun _ => etag) id
    setFields id fun _ => version
    build
  return policy

/-- What a builder builds, to look at. -/
def built : Action Defect (BuilderObject × Memory) Policy := do
  let policy ← build
  return (← get).2.policy policy

end Memory

/-! ## Conversion -/

/-- The memory and the records of a conversion so far. -/
structure Bench where
  /-- The memory. -/
  memory : Memory
  /-- The records, earliest first. -/
  records : List Record := []
  deriving DecidableEq, Repr

namespace Bench

/-- Works on the memory; a failure is reported as a fault. -/
def inMemory {ε α : Type} (fault : ε → Fault) (action : Action ε Memory α) : Action Fault Bench α :=
  EStateM.adaptExcept fault
    (Action.within memory (fun memory bench => { bench with memory }) action)

/-- Makes the record of an entry if there is somebody to see it. -/
def tell (logger : Logger) (entry : Entry) : Action Fault Bench Unit := do
  if logger.on then
    let record ← MonadExcept.ofExcept (entry.record logger.digits)
    modify fun bench => { bench with records := bench.records ++ [record] }

/-- Makes the record of a condition that is not converted. -/
def warn (logger : Logger) (binding : Binding) : Action Fault Bench Unit :=
  if binding.condition.isSome then tell logger (.dropped binding.roleName) else pure ()

end Bench

namespace Memory

/-- Makes objects of the bindings of a message, with frozen identity sets, up to the first member
that cannot be read. -/
def decodeBindings (parse : Parse) :
    List Wire.Binding → Action Identity.Unreadable Memory (List (Option BindingObject))
  | [] => return []
  | wire :: rest => do
    let binding ← MonadExcept.ofExcept (Conversion.decodeBinding parse wire)
    let object ← modifyGet fun memory => memory.newBinding true binding
    return some object :: (← decodeBindings parse rest)

/-- Decodes a message to a policy: the bindings are made anew, staged in a builder and built. -/
def decode (logger : Logger) (parse : Parse) (message : Wire.Message) :
    Action Fault Bench PolicyObject := do
  let objects ← Bench.inMemory .unreadable (decodeBindings parse message.bindings)
  Bench.tell logger (.decoded message.version objects.length)
  Bench.inMemory .defect
    (assemble (some objects) (Conversion.decodeEtag message.etag) message.version)

/-- The wire bindings of objects, up to the first that has none; conditions on the way are
logged. -/
def encodeBindings (logger : Logger) (format : Format) (listing : Listing) :
    List (Option BindingObject) → Action Fault Bench (List Wire.Binding)
  | [] => return []
  | none :: rest => encodeBindings logger format listing rest
  | some object :: rest => do
    let binding := (← get).memory.binding object
    Bench.warn logger binding
    let wire ← MonadExcept.ofExcept (Conversion.encodeBinding format binding listing)
    return wire :: (← encodeBindings logger format listing rest)

/-- Encodes a policy to a message. -/
def encode (logger : Logger) (format : Format) (listing : Listing) (policy : PolicyObject) :
    Action Fault Bench Wire.Message := do
  let objects := (← get).memory.sequence policy.bindings
  let bindings ← encodeBindings logger format listing objects
  let etag ← MonadExcept.ofExcept (Conversion.encodeEtag policy.etag)
  Bench.tell logger (.encoded policy.version bindings.length)
  return ⟨policy.version, bindings, etag⟩

/-! ## Changing -/

/-- Puts other objects into the sequence at a place. -/
def setSequence (memory : Memory) (place : Place) (objects : List (Option BindingObject)) :
    Memory :=
  { memory with sequences := memory.sequences.set place objects }

/-- Gives other members to the set at a place, which is not frozen. -/
def setMembers (memory : Memory) (place : Place) (members : IdentitySet) : Memory :=
  { memory with sets := memory.sets.set place ⟨members, false⟩ }

/-- Adds an identity to the set of the binding at an index of a sequence; a binding without a set
has no place for it, and a frozen set takes nothing. -/
def addIdentity (place : Place) (index : Nat) (identity : Option Identity) :
    Action Defect Memory IdentitySet := do
  let memory ← get
  let set? := (memory.sequence place)[index]?.join.bind BindingObject.identities
  match set?.bind fun set => memory.sets[set]?.map (set, ·) with
  | some (set, ⟨members, false⟩) =>
    let larger := members.insert identity
    modify fun memory => memory.setMembers set larger
    return larger
  | _ => throw .identitiesMissing

end Memory

end AccessPolicy
