import AccessPolicy.Comparison
import AccessPolicy.Conversion
import AccessPolicy.Input
import AccessPolicy.Wire.Text

/-!
# Steps and answers

A session is a sequence of steps on named builders, policies, lists of bindings and messages. Each
step has one answer. A step that fails answers with its failure.
-/

namespace AccessPolicy

/-- Where a step takes a sequence of bindings from. -/
inductive BindingsSource where
  /-- The step itself. -/
  | given (entries : Option (List BindingInput))
  /-- The list of a name. -/
  | named (list : String)
  deriving DecidableEq, Repr

/-- What a session can be asked to do. -/
inductive Step where
  /-- Turns logging on or off. -/
  | logging (on : Bool)
  /-- Makes an empty builder. -/
  | newBuilder (target : String)
  /-- Stages bindings in a builder, last entry first if they are to be reversed. -/
  | setBindings (builder : String) (source : BindingsSource) (reversed : Bool)
  /-- Stages an etag in a builder. -/
  | setEtag (builder : String) (etag : Option String)
  /-- Stages a version in a builder. -/
  | setVersion (builder : String) (version : Int)
  /-- Builds the policy of a builder. -/
  | build (builder target : String)
  /-- Makes a builder that starts from a policy. -/
  | toBuilder (policy target : String)
  /-- Looks at a policy. -/
  | get (policy : String)
  /-- Puts a policy together at once. -/
  | construct (target : String) (source : BindingsSource) (etag : Option String) (version : Int)
  /-- Tries to change a field of a policy. -/
  | assign (policy field : String)
  /-- Compares two policies. -/
  | compare (left right : String)
  /-- Counts the different policies among the named ones. -/
  | distinct (policies : List String)
  /-- Makes a list of bindings. -/
  | newList (target : String) (entries : List BindingInput)
  /-- Appends an entry to a list. -/
  | listAppend (list : String) (entry : BindingInput)
  /-- Adds an identity to the set of an entry of a list. -/
  | listAdd (list : String) (index : Nat) (identity : IdentityInput)
  /-- Empties a list. -/
  | listClear (list : String)
  /-- Validates a document as a message. -/
  | validate (target : String) (document : Json.Value)
  /-- Reads a payload as a message. -/
  | read (target : String) (payload : Wire.Payload)
  /-- Writes a message as JSON. -/
  | write (message : String)
  /-- Changes the version of a message. -/
  | messageVersion (message : String) (version : Int)
  /-- Changes the etag of a message. -/
  | messageEtag (message : String) (etag : List UInt8)
  /-- Appends a binding to a message, put together from its role and members and its condition. -/
  | messageAppend (message : String) (binding condition : Json.Value)
  /-- Compares two messages. -/
  | messageCompare (left right : String)
  /-- Decodes a message to a policy. -/
  | decode (message target : String) (parse : Parse)
  /-- Encodes a policy to a message, going through identity sets in some order. -/
  | encode (policy target : String) (format : Format) (listing : Listing := .sorted)

/-- Why a step fails. -/
inductive Failure where
  /-- Something is wrong with what the step works on. -/
  | fault (fault : Fault)
  /-- A name stands for nothing. -/
  | unknown (name : String)
  deriving DecidableEq, Repr

/-- What a step answers. -/
inductive Answer where
  /-- Nothing to tell. -/
  | done
  /-- The step failed. -/
  | failed (failure : Failure)
  /-- The step failed and left this state. -/
  | refused (failure : Failure) (state : Except Defect Policy)
  /-- The state of a builder after a change. -/
  | staged (state : Except Defect Policy)
  /-- A policy. -/
  | policy (policy : Policy)
  /-- How two policies compare. -/
  | comparison (comparison : Comparison)
  /-- The number of different policies. -/
  | distinct (count : Nat)
  /-- The size of a list or of a set. -/
  | size (size : Nat)
  /-- A message. -/
  | message (message : Wire.Message)
  /-- The text of a message. -/
  | json (json : String)
  /-- Whether two messages are equal. -/
  | equal (equal : Bool)
  /-- The outcome of decoding. -/
  | decoded (outcome : Shown Policy)
  /-- The outcome of encoding. -/
  | encoded (outcome : Shown Wire.Message)

end AccessPolicy
