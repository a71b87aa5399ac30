import OpenstackPlatform.Broker.Journal

/-!
# Bindings, variables and storage deletion

Three admission checks look at different halves of the state.  `mutateEnvironment` and
`deleteStorage` read the saved configuration; `validateBindings` reads what the controller lists and
the intents that are not settled.  The controller answers one request at a time, and what the broker
hears of it can be late or lost: a request stays on its way after its dispatch gave up, and an
operation goes on after it was admitted.

A save holds the write lock of the database while it asks the controller, so the broker's tables
stand still between its reads and its write, and the controller does not.
-/

namespace OpenstackPlatform
namespace Broker

open Library

/-! ## The controller -/

inductive ResourceType where
  | postgres
  | mongo
  | s3
  deriving DecidableEq, Repr

/-- `RESOURCE_OUTPUTS` -/
def resourceOutputs : ResourceType → List String
  | .postgres => ["url", "host", "port", "database", "user", "password", "sslmode", "sslrootcert"]
  | .mongo => ["uri"]
  | .s3 => ["endpoint", "public_endpoint", "region", "access_key_id", "secret_access_key", "bucket"]

/-- The name of a type in messages. -/
def ResourceType.label : ResourceType → String
  | .postgres => "postgres"
  | .mongo => "mongo"
  | .s3 => "s3"

/-- Whether an operation can still take effect. -/
def OperationStatus.unfinished : OperationStatus → Bool
  | running | recoveryRequired => true
  | succeeded | failed => false

/-- An operation of the controller, with what its request named. -/
structure Operation where
  kind : IntentKind
  scope : OperationScope
  app : Option AppId
  names : List String
  resource : Option ResourceId
  status : OperationStatus := .running
  cleanupSettled : Bool := false
  deriving DecidableEq, Repr

/-- A storage resource; a removed one is not listed. -/
structure Resource where
  app : AppId
  type : ResourceType
  removed : Bool := false
  deriving DecidableEq, Repr

/-- The controller, as the broker's requests see it: an operation is named by the key of its request,
and `keys` are the environment keys that it lists as the staff's. -/
structure Remote where
  operations : Table Nat Operation := ∅
  keys : List (AppId × String) := []
  resources : Table ResourceId Resource := ∅

namespace Remote

/-- The effect of an operation that succeeds. -/
def perform (r : Remote) (op : Operation) : Remote :=
  match op.kind, op.app, op.resource with
  | .envSet, some app, _ => { r with keys := op.names.map (fun name => (app, name)) ++ r.keys }
  | .envDelete, some app, _ =>
    { r with keys := r.keys.filter fun key => !(key.1 == app && op.names.contains key.2) }
  | .storageDelete, _, some resource =>
    { r with resources := r.resources.modify resource fun row => { row with removed := true } }
  | _, _, _ => r

/-- An operation goes on: an unfinished one gets another status, and takes effect where it succeeds. -/
def progress (r : Remote) (key : Nat) (status : OperationStatus) (cleanup : Bool) :
    Option Remote := do
  let op ← r.operations.lookup key
  guard op.status.unfinished
  let r := if status = .succeeded then r.perform op else r
  return { r with
    operations := r.operations.insert key { op with status := status, cleanupSettled := cleanup } }

/-- A new resource. -/
def create (r : Remote) (resource : ResourceId) (app : AppId) (type : ResourceType) :
    Option Remote := do
  guard (r.resources.lookup resource).isNone
  return { r with resources := r.resources.insert resource { app := app, type := type } }

/-- The names that the controller lists for an application. -/
def listedKeys (r : Remote) (app : AppId) : List String :=
  (r.keys.filter fun key => key.1 == app).map Prod.snd

/-- The type of a resource that the controller lists for an application. -/
def listed (r : Remote) (app : AppId) (resource : ResourceId) : Option ResourceType :=
  ((r.resources.lookup resource).filter fun row => row.app == app && !row.removed).map
    Resource.type

end Remote

/-- How a request meets the controller: it is served, it is rejected, or the controller fails. -/
inductive Verdict where
  | serve
  | reject (status : Nat) (code : Option String)
  | fail (status : Nat)
  deriving DecidableEq, Repr

/-- A rejection that settles an intent. -/
def Reply.refuses (reply : Reply) : Bool :=
  rejections.contains reply.status && !reply.errorCode.any recoverableCodes.contains

namespace Remote

/-- The operation that a request starts. -/
def start (row : Intent) : Operation :=
  { kind := row.kind, scope := row.expectedScope, app := row.app, names := row.names
    resource := row.resource }

/-- `_operation_response` -/
def accepted (key : Nat) : Reply := { status := 202, operationId := some key }

/-- `_get_operation` -/
def poll (r : Remote) (key : Nat) : Reply :=
  match r.operations.lookup key with
  | some op =>
    { status := 200, operationId := some key, operationStatus := some op.status
      scope := some op.scope, cleanupSettled := op.cleanupSettled }
  | none => { status := 404, errorCode := some "OPERATION_NOT_FOUND" }

/-- `_external` for a request whose key has an operation: it is answered as before, and one that waits
for recovery is queued again, unless that conflicts or the resource is gone. -/
def replay (r : Remote) (row : Intent) (op : Operation) (verdict : Verdict) :
    Option (Remote × Reply) :=
  match verdict with
  | .serve =>
    if op.status = .recoveryRequired then
      some ({ r with
        operations := r.operations.insert row.controllerKey { op with status := .running } },
        accepted row.controllerKey)
    else some (r, accepted row.controllerKey)
  | .reject status code =>
    if op.status = .recoveryRequired ∧
        (!row.kind.environment || code.any recoverableCodes.contains) then
      some (r, { status := status, errorCode := code })
    else none
  | .fail status => if 500 ≤ status then some (r, { status := status }) else none

/-- `_external` for a request whose key is new. -/
def enroll (r : Remote) (row : Intent) (verdict : Verdict) : Option (Remote × Reply) :=
  match verdict with
  | .serve =>
    some ({ r with operations := r.operations.insert row.controllerKey (start row) },
      accepted row.controllerKey)
  | .reject status code =>
    if status ∈ rejections then some (r, { status := status, errorCode := code }) else none
  | .fail status => if 500 ≤ status then some (r, { status := status }) else none

/-- The controller takes a dispatch's request. -/
def handle (r : Remote) (row : Intent) (verdict : Verdict) : Option (Remote × Reply) :=
  match row.polled with
  | some key =>
    match verdict with
    | .serve => some (r, r.poll key)
    | .reject _ _ => none
    | .fail status => if 500 ≤ status then some (r, { status := status }) else none
  | none =>
    match r.operations.lookup row.controllerKey with
    | some op => r.replay row op verdict
    | none => r.enroll row verdict

end Remote

/-! ## The admission checks -/

/-- The names that a configuration binds outputs to. -/
def Configuration.binds (c : Configuration) (name : String) : Bool :=
  c.storageBindings.any fun binding => binding.outputs.any fun output => output.2 == name

/-- Whether a configuration binds a resource. -/
def Configuration.uses (c : Configuration) (resource : ResourceId) : Bool :=
  c.storageBindings.any fun binding => binding.resource == resource

namespace Board

/-- Whether an `env_set` of a name is not settled. -/
def setting (b : Board) (app : AppId) (name : String) : Bool :=
  (b.intents.find? fun _ row =>
    row.app == some app && row.kind == .envSet && !row.state.settled &&
      row.names.contains name).isSome

/-- Whether a `storage_delete` of a resource is not settled. -/
def deleting (b : Board) (app : AppId) (resource : ResourceId) : Bool :=
  (b.intents.find? fun _ row =>
    row.app == some app && row.kind == .storageDelete && !row.state.settled &&
      row.resource == some resource).isSome

/-- `validate_bindings`, with what the controller listed. -/
def validateBindings (b : Board) (resources : List (ResourceId × ResourceType))
    (keys : List String) (app : AppId) (c : Configuration) : Except HttpError Unit :=
  c.storageBindings.forM fun binding => do
    let type ← found (resources.lookup binding.resource)
      ⟨400, "INVALID_BINDING", "Storage must belong to this application."⟩
    require (!b.deleting app binding.resource)
      ⟨400, "INVALID_BINDING", "Storage must belong to this application."⟩
    binding.outputs.forM fun (output, target) => do
      require ((resourceOutputs type).contains output)
        ⟨400, "INVALID_BINDING", "Unknown output for " ++ type.label ++ " storage."⟩
      require (!(keys.contains target || b.setting app target))
        ⟨409, "ENV_BINDING_CONFLICT", target ++ " already exists as an environment variable."⟩

/-- `mutate_environment`, the admission of a new request. -/
def mutateEnvironment (b : Board) (i : IntentId) (user : UserId) (app : AppId) (kind : IntentKind)
    (name : String) (admin : Bool) : Except HttpError (Option Board) := do
  require (!(b.saved app).any fun c => c.binds name)
    ⟨409, "ENV_BINDING_CONFLICT",
      name ++ " is a storage binding target. Remove or rename that binding first."⟩
  let _ ← b.checkAppNotDeleted app
  return b.record i
    { user := user, app := some app, kind := kind, controllerKey := i, portalAdmin := admin
      names := [name] }

/-- `AppManagement.dispatch`, the admission of a new deletion of a resource. -/
def deleteStorage (b : Board) (i : IntentId) (user : UserId) (app : AppId)
    (resource : ResourceId) : Except HttpError (Option Board) := do
  let _ ← b.checkAppNotDeleted app
  require (!(b.saved app).any fun c => c.uses resource)
    ⟨409, "STORAGE_BOUND", "Remove this resource's saved bindings before deleting storage."⟩
  return b.record i
    { user := user, app := some app, kind := .storageDelete, controllerKey := i, portalAdmin := true
      resource := some resource }

end Board

/-! ## The system -/

/-- A request of a dispatch: on its way, or answered. -/
inductive Call where
  | asked (flight : Flight)
  | replied (flight : Flight) (reply : Reply)
  deriving DecidableEq, Repr

def Call.flight : Call → Flight
  | asked flight => flight
  | replied flight _ => flight

/-- A save that holds the write lock, with what it has read of the controller. -/
structure Saving where
  app : AppId
  resources : List (ResourceId × ResourceType) := []
  keys : Option (List String) := none
  deriving DecidableEq, Repr

/-- `storage_resources`, one item of a page. -/
def Saving.seeResource (s : Saving) (resource : ResourceId) (type : ResourceType) : Saving :=
  { s with resources := (resource, type) :: s.resources }

/-- `environment_metadata` -/
def Saving.seeKeys (s : Saving) (names : List String) : Saving := { s with keys := some names }

/-- The broker's journal, the requests between the two, and the controller. -/
structure Deployment where
  journal : Journal := {}
  calls : Table Nat Call := ∅
  saving : Option Saving := none
  remote : Remote := {}

/-- One transaction of the broker, one read of a save, or one step of the controller. -/
inductive DeploymentLabel where
  | environment (i : IntentId) (user : UserId) (app : AppId) (kind : IntentKind) (name : String)
      (admin : Bool)
  | deleteStorage (i : IntentId) (user : UserId) (app : AppId) (resource : ResourceId)
  | request (i : IntentId) (intent : Intent)
  | beginSave (app : AppId)
  | readStorage (resource : ResourceId)
  | readKeys
  | save (i : IntentId) (user : UserId) (admin : Bool) (revision : Nat)
      (configuration : Configuration)
  | abandonSave
  | take (flight : Nat) (i : IntentId) (secret authorized : Bool) (now timeout : Nat)
  | answer (flight : Nat) (reply : Option Reply)
  | resume (i : IntentId)
  | deliver (flight : Nat) (verdict : Verdict)
  | progress (key : Nat) (status : OperationStatus) (cleanup : Bool)
  | create (resource : ResourceId) (app : AppId) (type : ResourceType)

/-- Kinds that another label admits, or that change which applications there are. -/
def IntentKind.elsewhere : IntentKind → Bool
  | createApp | adoptApp | appDelete | saveConfiguration | envSet | envDelete | storageDelete => true
  | _ => false

namespace Deployment

/-- A transaction of the journal; it waits for the write lock. -/
def commit (d : Deployment) (board : Option Board) : Option Deployment := do
  guard d.saving.isNone
  let b ← board
  return { d with journal := { d.journal with board := b } }

/-- The request of a flight that has started. -/
def ask (calls : Table Nat Call) (f : Nat) : Option Flight → Table Nat Call
  | some flight => calls.insert f (.asked flight)
  | none => calls

/-- What the step of a label does. -/
def next (d : Deployment) : DeploymentLabel → Option Deployment
  | .environment i user app kind name admin => do
    guard kind.environment
    d.commit ((d.journal.board.mutateEnvironment i user app kind name admin).toOption.join)
  | .deleteStorage i user app resource => do
    guard ((d.remote.resources.lookup resource).any fun row => row.app == app)
    d.commit ((d.journal.board.deleteStorage i user app resource).toOption.join)
  | .request i intent => do
    guard (!intent.kind.elsewhere)
    d.commit (d.journal.board.record i { intent with controllerKey := i })
  | .beginSave app => do
    guard d.saving.isNone
    return { d with saving := some { app := app } }
  | .readStorage resource => do
    let saving ← d.saving
    let type ← d.remote.listed saving.app resource
    return { d with saving := some (saving.seeResource resource type) }
  | .readKeys => do
    let saving ← d.saving
    return { d with saving := some (saving.seeKeys (d.remote.listedKeys saving.app)) }
  | .save i user admin revision configuration => do
    let saving ← d.saving
    guard (configuration.storageBindings.isEmpty || saving.keys.isSome)
    let _ ← (d.journal.board.validateBindings saving.resources (saving.keys.getD []) saving.app
      configuration).toOption
    let b ← d.journal.board.save i saving.app user admin revision configuration
    return { d with journal := { d.journal with board := b }, saving := none }
  | .abandonSave => some { d with saving := none }
  | .take f i secret authorized now timeout => do
    guard (d.saving.isNone && (d.calls.lookup f).isNone)
    let journal ← d.journal.next (.take f i secret authorized now timeout)
    return { d with
      journal := journal, calls := ask d.calls f (journal.flights.lookup f) }
  | .answer f reply => do
    guard d.saving.isNone
    guard (reply.all fun reply =>
      (d.journal.flights.lookup f).any fun flight =>
        d.calls.lookup f = some (.replied flight reply))
    let journal ← d.journal.next (.answer f reply)
    return { d with journal := journal }
  | .resume i => d.commit (d.journal.board.resume i)
  | .deliver f verdict => do
    let call ← d.calls.lookup f
    match call with
    | .asked flight =>
      let (remote, reply) ← d.remote.handle flight.row verdict
      return { d with remote := remote, calls := d.calls.insert f (.replied flight reply) }
    | .replied _ _ => none
  | .progress key status cleanup =>
    (d.remote.progress key status cleanup).map fun remote => { d with remote := remote }
  | .create resource app type =>
    (d.remote.create resource app type).map fun remote => { d with remote := remote }

/-- The step relation. -/
def step (d : Deployment) (l : DeploymentLabel) (d' : Deployment) : Prop := d.next l = some d'

end Deployment
end Broker
end OpenstackPlatform
