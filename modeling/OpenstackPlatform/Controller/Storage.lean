import OpenstackPlatform.Controller.Rows
import OpenstackPlatform.Library.Program

/-!
# Storage operations of the controller

`storage.py`: creating, verifying, rotating and removing storage of the types that a request names,
for one resource name of one application.

An operation goes through its types one after another.  For each it writes the resource row, calls
the helper on the storage host, records what the helper answered and lists the type as completed,
every step in a transaction of its own.  The process can stop between any two of them.  The same
request then finds the operation unfinished, passes over the completed types, and tells the helper
with `recover` that the first remaining one may have been begun.

The world is what these functions read and write: the newest operation of the application's scope,
its resource rows and environment key names, and, for the proofs, the calls that reached the helper.
Deadlines, the policy's quotas and the rows of other resources are left out; admission by capacity,
references from the running deployment and the helper are parameters.
-/

namespace OpenstackPlatform
namespace Controller
namespace Storage

open Library

/-! ## Types, rows and refs -/

/-- `RESOURCE_TYPES` -/
inductive ResourceType where
  | postgres
  | mongo
  | s3
  deriving DecidableEq, Repr

/-- The name of a type in phases, actions and messages. -/
def ResourceType.text : ResourceType → String
  | .postgres => "postgres"
  | .mongo => "mongo"
  | .s3 => "s3"

/-- The types that a message names. -/
def joinTypes (types : List ResourceType) : String := ", ".intercalate (types.map (·.text))

/-- `RESOURCE_TYPES`, in its order. -/
def resourceTypes : List ResourceType := [.postgres, .mongo, .s3]

/-- `StorageAction` -/
inductive Action where
  | create
  | verify
  | rotate
  | remove
  deriving DecidableEq, Repr

/-- The kind of an action's operation. -/
def Action.kind : Action → String
  | .create => "storage.create"
  | .verify => "storage.verify"
  | .rotate => "storage.rotate"
  | .remove => "storage.remove"

/-- `managed_resources.lifecycle_state` -/
inductive Lifecycle where
  | creating
  | active
  | removing
  | recoveryRequired
  deriving DecidableEq, Repr

/-- A row of `managed_resources`, without its key. -/
structure ManagedResource where
  resourceId : String
  providerId : Option String
  providerName : String
  lifecycleState : Lifecycle
  postgresConnections : Option Nat
  instanceId : Option String
  instancePort : Option Nat
  deriving DecidableEq, Repr

/-- The refs of a storage operation. -/
structure Refs where
  selected : List ResourceType
  completed : List ResourceType
  current : Option ResourceType
  resourceName : String
  purgeS3 : Option Bool
  modifyIndex : Option Nat
  deriving DecidableEq, Repr

/-- A storage operation. -/
structure Operation where
  operationId : OperationId
  kind : String
  status : OperationStatus
  phase : String
  refs : Refs
  cleanupState : String
  deriving DecidableEq, Repr

/-! ## The helper -/

/-- The arguments of a call. -/
structure Call where
  operationId : OperationId
  action : Action
  type : ResourceType
  resourceName : String
  providerId : Option String
  providerName : String
  postgresConnections : Option Nat
  preflight : Bool
  purge : Option Bool
  recover : Bool
  deriving DecidableEq, Repr

/-- The fields of an answer that the controller reads. -/
structure Reply where
  providerId : Option String
  providerName : Option String
  credentialName : Option String
  verified : Bool
  evidenceAccepted : Bool
  retired : Bool
  rolledBack : Bool
  preflightAccepted : Bool
  confirmedAbsent : Bool
  environmentRemoved : Bool
  modifyIndex : Option Int
  instancePort : Option Nat
  deriving DecidableEq, Repr

/-- What the functions raise. -/
inductive Error where
  | validation (message : String)
  | unfinishedOperation (operationId : OperationId) (kind : String)
  | storageOperation (message : String)
  | helper (code : String)
  | database (message : String)
  | capacity
  deriving DecidableEq, Repr

/-- A request: the arguments of the four functions. -/
structure Request where
  action : Action
  operationId : OperationId
  types : List ResourceType
  resourceName : String
  confirmName : Option String
  confirmDestructive : Bool
  purgeS3 : Bool

/-- The application, the policy, and what decides outside of this file. -/
structure Config where
  applicationId : String
  slug : String
  prefixName : String
  sha256 : String → String
  postgresConnections : Nat
  newResourceId : ResourceType → String
  /-- `canonical_secret_keys` -/
  secretKeys : ResourceType → String → List String
  /-- `storage_capacity.check` of a resource that has no row yet -/
  admits : ResourceType → Bool
  /-- `check_finishing_admission` of the application's scope -/
  finishingAdmits : String → Bool
  /-- the running deployment binds the resource or names its keys -/
  referenced : ResourceType → Bool
  /-- the answer to a call after the earlier ones, or the code of a `HelperError` -/
  helper : List Call → Call → Except String Reply

/-- What an operation reads and writes. -/
structure World where
  operation : Option Operation
  resources : Table ResourceType ManagedResource
  environmentKeys : Table ResourceType (List String)
  calls : List Call

/-! ## Names -/

/-- `text.rstrip("-")` -/
def rstrip (text : List Char) : List Char := (text.reverse.dropWhile (· == '-')).reverse

/-- `_provider_name` -/
def providerName (config : Config) (type : ResourceType) (name : String) : String :=
  let digest :=
    (config.sha256 (config.applicationId ++ ":" ++ type.text ++ ":" ++ name)).toList
  let identifier := config.applicationId.toList.filter (· ≠ '-')
  match type with
  | .postgres | .mongo =>
    "p_" ++ String.ofList (if name = "default" then identifier.take 20 else digest.take 20)
  | .s3 =>
    let suffix := if name = "default" then identifier.take 8 else digest.take 10
    let visible := if name = "default" then config.slug else config.slug ++ "-" ++ name
    let visibleLimit := 63 - config.prefixName.length - suffix.length - 2
    config.prefixName ++ "-" ++ String.ofList (rstrip (visible.toList.take visibleLimit)) ++ "-" ++
      String.ofList suffix

/-- `_selected` -/
def selected (types : List ResourceType) : Except Error (List ResourceType) :=
  if types = [] then .error (.validation "select at least one storage type")
  else .ok (resourceTypes.filter (· ∈ types))

/-- A provider name or ID that `_identity_result` accepts. -/
def validIdentity (text : String) : Bool :=
  !text.isEmpty && text.length ≤ 253 && !text.toList.contains '\x00'

/-- `_identity_result` -/
def identityResult (reply : Reply) : Except Error (String × String) :=
  match reply.providerId, reply.providerName with
  | some providerId, some name =>
    if validIdentity providerId && validIdentity name then
      if reply.verified then .ok (providerId, name)
      else .error (.storageOperation "storage helper did not confirm scoped access")
    else .error (.storageOperation "storage helper returned invalid provider identity")
  | _, _ => .error (.storageOperation "storage helper returned invalid provider identity")

/-- `_rotation_identity_result` -/
def rotationIdentityResult (reply : Reply) (resource : ManagedResource) : Except Error Unit := do
  let (providerId, name) ← identityResult reply
  if some providerId ≠ resource.providerId ∨ name ≠ resource.providerName then
    throw (.storageOperation "storage rotation provider identity drifted")
  if (reply.credentialName.any validIdentity) = false then
    throw (.storageOperation "storage rotation credential identity was not confirmed")

/-! ## Transactions and calls -/

/-- A program over the world. -/
abbrev Prog (α : Type) := Program World Error α

/-- `get_unfinished_operation` of the application's scope -/
def World.unfinished (w : World) : Option Operation :=
  w.operation.filter (·.status.nonterminal)

/-- An update of the unfinished operation with the given ID. -/
def updateOperation (id : OperationId) (update : Operation → Operation) : Prog Unit :=
  .commit fun w =>
    match w.unfinished with
    | some op =>
      if op.operationId = id then .ok { w with operation := some (update op) }
      else .error (.database "operation is missing or already terminal")
    | none => .error (.database "operation is missing or already terminal")

/-- `checkpoint_operation(..., merge_refs=True)` -/
def checkpointOperation (id : OperationId) (phase : String) (merge : Refs → Refs) : Prog Unit :=
  updateOperation id fun op => { op with phase := phase, refs := merge op.refs }

/-- `mark_recovery_required` -/
def markRecoveryRequired (id : OperationId) (phase : String) : Prog Unit :=
  updateOperation id fun op => { op with status := .recoveryRequired, phase := phase }

/-- `mark_failed(..., cleanup_state="confirmed")` -/
def markFailed (id : OperationId) : Prog Unit :=
  updateOperation id fun op => { op with status := .failed, cleanupState := "confirmed" }

/-- `mark_succeeded` -/
def markSucceeded (id : OperationId) : Prog Unit :=
  updateOperation id fun op => { op with status := .succeeded, cleanupState := "confirmed" }

/-- `_put_resource`: a new row is isolated while it is being created, and only then, or for S3, is
the capacity checked. -/
def putResource (config : Config) (type : ResourceType) (lifecycle : Lifecycle)
    (providerId : Option String) (name : String) (existing : Option ManagedResource) : Prog Unit :=
  .commit fun w =>
    let connections :=
      match existing with
      | some row => row.postgresConnections
      | none => if type = .postgres then some config.postgresConnections else none
    let isolated := existing.isNone && (type != .s3) && lifecycle == .creating
    match w.resources.lookup type with
    | some row =>
      .ok { w with
        resources := w.resources.insert type { row with
          providerId := providerId, providerName := name, lifecycleState := lifecycle,
          postgresConnections := connections } }
    | none =>
      if (isolated || type == .s3) && !config.admits type then .error .capacity
      else .ok { w with
        resources := w.resources.insert type {
          resourceId := config.newResourceId type, providerId := providerId, providerName := name
          lifecycleState := lifecycle, postgresConnections := connections
          instanceId := if isolated then some (config.newResourceId type) else none
          instancePort := none } }

/-- `delete_managed_resource` -/
def deleteManagedResource (type : ResourceType) : Prog Unit :=
  .commit fun w => .ok { w with resources := w.resources.erase type }

/-- `set_environment_keys` with the owner `storage_owner(type, name)`: the names of the owner are
replaced.  The names carry a reserved prefix, the type and the name, so no other owner has them. -/
def setEnvironmentKeys (type : ResourceType) (keys : List String) : Prog Unit :=
  .commit fun w => .ok { w with environmentKeys := w.environmentKeys.insert type keys }

/-- `set_storage_instance` of the row of a type, with the row's own ID. -/
def setStorageInstance (type : ResourceType) (port : Nat) : Prog Unit :=
  .commit fun w => .ok { w with
    resources := w.resources.modify type fun row => { row with
      instanceId := some row.resourceId, instancePort := some port } }

/-- `_call` -/
def call (config : Config) (c : Call) : Prog Reply := do
  let earlier ← Program.read World.calls
  Program.commit fun w => .ok { w with calls := w.calls ++ [c] }
  Program.inspect fun _ => (config.helper earlier c).mapError .helper

/-- `_mark_ambiguous` -/
def markAmbiguous {α : Type} (config : Config) (id : OperationId) (type : ResourceType)
    (phase : String) (providerId : Option String) (name message : String) : Prog α := do
  let existing ← Program.read fun w => w.resources.lookup type
  putResource config type .recoveryRequired providerId name existing
  markRecoveryRequired id phase
  Program.throw (.storageOperation (message ++
    "; recovery is required; retry the original controller request with the same Idempotency-Key"))

/-- `_checkpoint_observed_index` -/
def checkpointObservedIndex (id : OperationId) (phase : String) (merge : Refs → Refs)
    (reply : Reply) : Prog Unit :=
  match reply.modifyIndex with
  | none => pure ()
  | some (.ofNat index) =>
    checkpointOperation id phase fun refs => { merge refs with modifyIndex := some index }
  | some (.negSucc _) =>
    Program.throw (.storageOperation "storage helper returned an invalid Nomad ModifyIndex")

/-- `_checkpoint_refs` -/
def checkpointRefs (chosen completed : List ResourceType) (current : ResourceType) (refs : Refs) :
    Refs :=
  { refs with selected := chosen, completed := completed, current := some current }

/-- The refs of the checkpoint after a type. -/
def completedRefs (chosen completed : List ResourceType) (refs : Refs) : Refs :=
  { refs with selected := chosen, completed := completed }

/-! ## Operations -/

/-- The `purge_s3` ref, which only a removal has. -/
def Request.purge (request : Request) : Option Bool :=
  if request.action = .remove then some request.purgeS3 else none

/-- `_existing_operation` -/
def existingOperation (request : Request) (chosen : List ResourceType) (w : World) :
    Except Error (Option Operation) :=
  match w.unfinished with
  | none => .ok none
  | some op =>
    if op.kind = request.action.kind ∧ op.refs.selected = chosen ∧
        op.refs.resourceName = request.resourceName ∧
        (request.action = .remove → op.refs.purgeS3 = request.purge) then
      .ok (some op)
    else .error (.unfinishedOperation op.operationId op.kind)

/-- `_begin` and `begin_operation` -/
def begin (config : Config) (request : Request) (chosen : List ResourceType) (phase : String) :
    Prog Unit :=
  .commit fun w =>
    if config.finishingAdmits request.action.kind = false then
      .error (.database "accepted finishing work does not admit the operation")
    else
      match w.unfinished with
      | some op => .error (.unfinishedOperation op.operationId op.kind)
      | none =>
        .ok { w with operation := some {
          operationId := request.operationId, kind := request.action.kind, status := .running
          phase := phase, cleanupState := "pending"
          refs := {
            selected := chosen, completed := [], current := none
            resourceName := request.resourceName, purgeS3 := request.purge
            modifyIndex := none } } }

/-- The loop of all four functions: the completed types are passed over, and only the first of the
others is recovered. -/
def each (step : Bool → List ResourceType → ResourceType → Prog Unit) :
    List ResourceType → Bool → List ResourceType → Prog (List ResourceType)
  | [], _, completed => pure completed
  | type :: rest, recovering, completed =>
    if type ∈ completed then each step rest recovering completed
    else do
      step recovering completed type
      each step rest false (completed ++ [type])

/-- `_complete_operation` -/
def completeOperation (id : OperationId) (chosen completed : List ResourceType) :
    Prog (List ResourceType × List ResourceType) := do
  updateOperation id fun op => { op with
    phase := "accepted", refs := completedRefs chosen completed op.refs
    cleanupState := "confirmed" }
  markSucceeded id
  pure (chosen, completed)

/-- The arguments that every call of a request shares. -/
def Request.call (request : Request) (id : OperationId) (type : ResourceType) (recovering : Bool)
    (providerId : Option String) (name : String) : Call where
  operationId := id
  action := request.action
  type := type
  resourceName := request.resourceName
  providerId := providerId
  providerName := name
  postgresConnections := none
  preflight := false
  purge := none
  recover := recovering

/-! ### Create -/

/-- The handler of a failed creation. -/
def createFailed (config : Config) (id : OperationId) (type : ResourceType)
    (current : Option ManagedResource) (anticipated : String) {α : Type} (error : Error) :
    Prog α := do
  let retained ← Program.read fun w => w.resources.lookup type
  if error = .helper "CREATE_ROLLED_BACK" ∧ retained.bind (·.instanceId) = none then do
    deleteManagedResource type
    markFailed id
    Program.throw (.storageOperation (type.text ++ " creation failed; rollback was confirmed"))
  else
    markAmbiguous config id type ("create_" ++ type.text) (current.bind (·.providerId)) anticipated
      (type.text ++ " creation was not confirmed")

/-- The row of a type that is about to be created. -/
def putCreating (config : Config) (type : ResourceType) (recovering : Bool)
    (current : Option ManagedResource) (anticipated : String) : Prog Unit :=
  if recovering = false ∨ current = none then
    putResource config type .creating none anticipated none
  else pure ()

/-- The checks of an answer to a creation. -/
def createdIdentity (type : ResourceType) (anticipated : String) (identity : String × String) :
    Except Error Unit :=
  if identity.2 ≠ anticipated ∨ (type ≠ .s3 ∧ identity.1 ≠ anticipated) then
    .error (.storageOperation "storage helper returned mismatched provider identity")
  else .ok ()

/-- The call of a creation and the checks of its answer. -/
def callCreate (config : Config) (request : Request) (id : OperationId)
    (chosen completed : List ResourceType) (type : ResourceType) (recovering : Bool)
    (anticipated : String) : Prog (Reply × String × String) := do
  let reply ← call config { request.call id type recovering none "" with
    postgresConnections := if type = .postgres then some config.postgresConnections else none }
  let identity ← Program.inspect fun _ => identityResult reply
  Program.inspect fun _ =>
    if reply.evidenceAccepted then .ok ()
    else .error (.storageOperation
      "storage helper did not confirm restart, scheduler, and public health")
  checkpointObservedIndex id ("create_observed_" ++ type.text)
    (checkpointRefs chosen completed type) reply
  Program.inspect fun _ => createdIdentity type anticipated identity
  pure (reply, identity)

/-- The instance that a new database runs on. -/
def putInstance (type : ResourceType) (reply : Reply) : Prog Unit :=
  match reply.instancePort with
  | some port => setStorageInstance type port
  | none => pure ()

/-- One type of `create`. -/
def createType (config : Config) (request : Request) (id : OperationId)
    (chosen : List ResourceType) (recovering : Bool) (completed : List ResourceType)
    (type : ResourceType) : Prog Unit := do
  let anticipated := providerName config type request.resourceName
  let current ← Program.read fun w => w.resources.lookup type
  putCreating config type recovering current anticipated
  checkpointOperation id ("create_" ++ type.text) (checkpointRefs chosen completed type)
  let (reply, providerId, name) ← Program.tryCatch
    (callCreate config request id chosen completed type recovering anticipated)
    (createFailed config id type current anticipated)
  let accepted ← Program.read fun w => w.resources.lookup type
  putResource config type .active (some providerId) name accepted
  setEnvironmentKeys type (config.secretKeys type request.resourceName)
  putInstance type reply
  checkpointOperation id ("created_" ++ type.text) (completedRefs chosen (completed ++ [type]))

/-! ### Verify -/

/-- The call of a verification and the check of its answer. -/
def callVerify (config : Config) (request : Request) (id : OperationId)
    (chosen completed : List ResourceType) (type : ResourceType) (recovering : Bool)
    (resource : ManagedResource) : Prog Unit := do
  let reply ← call config
    (request.call id type recovering resource.providerId resource.providerName)
  Program.inspect fun _ =>
    if reply.verified then .ok ()
    else .error (.storageOperation "verification evidence was rejected")
  checkpointObservedIndex id ("verify_observed_" ++ type.text)
    (checkpointRefs chosen completed type) reply

/-- `resources[(resource_type, checked_name)]` -/
def resourceOf (type : ResourceType) : Prog ManagedResource :=
  .inspect fun w =>
    match w.resources.lookup type with
    | some resource => .ok resource
    | none => .error (.database "storage resource is missing")

/-- One type of `verify`. -/
def verifyType (config : Config) (request : Request) (id : OperationId)
    (chosen : List ResourceType) (recovering : Bool) (completed : List ResourceType)
    (type : ResourceType) : Prog Unit := do
  let resource ← resourceOf type
  checkpointOperation id ("verify_" ++ type.text) (checkpointRefs chosen completed type)
  Program.tryCatch (callVerify config request id chosen completed type recovering resource)
    fun _ => markAmbiguous config id type ("verify_" ++ type.text) resource.providerId
      resource.providerName (type.text ++ " verification was not confirmed")
  putResource config type .active resource.providerId resource.providerName (some resource)
  checkpointOperation id ("verified_" ++ type.text) (completedRefs chosen (completed ++ [type]))

/-! ### Rotate -/

/-- The call of a rotation and the check of the identity in its answer. -/
def callRotate (config : Config) (request : Request) (id : OperationId)
    (chosen completed : List ResourceType) (type : ResourceType) (recovering : Bool)
    (resource : ManagedResource) : Prog Reply := do
  let reply ← call config {
    request.call id type recovering resource.providerId resource.providerName with
    postgresConnections := if type = .postgres then resource.postgresConnections else none }
  Program.inspect fun _ => rotationIdentityResult reply resource
  checkpointObservedIndex id ("rotate_observed_" ++ type.text)
    (checkpointRefs chosen completed type) reply
  pure reply

/-- What a rotation does with an answer that does not accept the evidence or confirm the
retirement. -/
def rotated (config : Config) (id : OperationId) (type : ResourceType)
    (resource : ManagedResource) (reply : Reply) : Prog Unit :=
  if reply.evidenceAccepted = false then
    if reply.rolledBack = false then
      markAmbiguous config id type ("rotate_" ++ type.text) resource.providerId
        resource.providerName (type.text ++ " rotation rollback was not confirmed")
    else do
      putResource config type .active resource.providerId resource.providerName (some resource)
      markFailed id
      Program.throw (.storageOperation (type.text ++ " rotation health evidence was rejected"))
  else if reply.retired = false then
    markAmbiguous config id type ("retire_" ++ type.text) resource.providerId
      resource.providerName (type.text ++ " old credential retirement was not confirmed")
  else pure ()

/-- One type of `rotate`. -/
def rotateType (config : Config) (request : Request) (id : OperationId)
    (chosen : List ResourceType) (recovering : Bool) (completed : List ResourceType)
    (type : ResourceType) : Prog Unit := do
  let resource ← resourceOf type
  checkpointOperation id ("rotate_" ++ type.text) (checkpointRefs chosen completed type)
  let reply ← Program.tryCatch
    (callRotate config request id chosen completed type recovering resource)
    fun _ => markAmbiguous config id type ("rotate_" ++ type.text) resource.providerId
      resource.providerName (type.text ++ " rotation was not confirmed")
  rotated config id type resource reply
  putResource config type .active resource.providerId resource.providerName (some resource)
  checkpointOperation id ("rotated_" ++ type.text) (completedRefs chosen (completed ++ [type]))

/-! ### Remove -/

/-- The refs of the checkpoints of a removal. -/
def removalRefs (request : Request) (chosen completed : List ResourceType)
    (current : ResourceType) (refs : Refs) : Refs :=
  { checkpointRefs chosen completed current refs with purgeS3 := some request.purgeS3 }

/-- The arguments of a call of a removal. -/
def Request.removal (request : Request) (id : OperationId) (type : ResourceType)
    (recovering preflight : Bool) (resource : ManagedResource) : Call :=
  { request.call id type recovering resource.providerId resource.providerName with
    preflight := preflight
    purge := if type = .s3 then some request.purgeS3 else none }

/-- The preflights of the types that are still to be removed. -/
def preflights (config : Config) (request : Request) (id : OperationId) (recovering : Bool) :
    List ResourceType → Prog Unit
  | [] => pure ()
  | type :: rest => do
    let resource ← Program.inspect fun w =>
      match w.resources.lookup type with
      | some resource => .ok resource
      | none =>
        .error (.storageOperation "unfinished storage removal metadata is inconsistent")
    let reply ← call config (request.removal id type recovering true resource)
    Program.inspect fun _ =>
      if reply.preflightAccepted then .ok ()
      else .error (.storageOperation "storage removal preflight was rejected")
    preflights config request id recovering rest

/-- The handler of a failed preflight. -/
def preflightFailed (request : Request) (id : OperationId) (chosen completed : List ResourceType)
    (type : ResourceType) (recovering : Bool) : Prog Unit :=
  if recovering || !completed.isEmpty then do
    checkpointOperation id ("preflight_" ++ type.text) (removalRefs request chosen completed type)
    markRecoveryRequired id ("preflight_" ++ type.text)
    Program.throw
      (.storageOperation "storage removal preflight failed before another deletion")
  else do
    markFailed id
    Program.throw (.storageOperation "storage removal preflight failed before any deletion")

/-- The call of a removal and the checks of its answer. -/
def callRemove (config : Config) (request : Request) (id : OperationId)
    (chosen completed : List ResourceType) (type : ResourceType) (recovering : Bool)
    (resource : ManagedResource) : Prog Unit := do
  let reply ← call config (request.removal id type recovering false resource)
  Program.inspect fun _ =>
    if reply.confirmedAbsent && reply.environmentRemoved then .ok ()
    else .error (.storageOperation "storage removal evidence was incomplete")
  checkpointObservedIndex id ("remove_observed_" ++ type.text)
    (removalRefs request chosen completed type) reply

/-- The row of a type that is about to be removed. -/
def putRemoving (config : Config) (type : ResourceType) (recovering : Bool)
    (resource : ManagedResource) : Prog Unit :=
  if recovering then pure ()
  else
    putResource config type .removing resource.providerId resource.providerName (some resource)

/-- One type of `remove`. -/
def removeType (config : Config) (request : Request) (id : OperationId)
    (chosen : List ResourceType) (recovering : Bool) (completed : List ResourceType)
    (type : ResourceType) : Prog Unit := do
  Program.tryCatch
    (preflights config request id recovering (chosen.filter (· ∉ completed)))
    fun _ => preflightFailed request id chosen completed type recovering
  checkpointOperation id ("preflight_" ++ type.text) (removalRefs request chosen completed type)
  let resource ← resourceOf type
  putRemoving config type recovering resource
  checkpointOperation id ("remove_" ++ type.text) (removalRefs request chosen completed type)
  Program.tryCatch (callRemove config request id chosen completed type recovering resource)
    fun _ => markAmbiguous config id type ("remove_" ++ type.text) resource.providerId
      resource.providerName
      (type.text ++ " absence or environment-key removal was not confirmed")
  setEnvironmentKeys type []
  deleteManagedResource type
  checkpointOperation id ("removed_" ++ type.text) fun refs =>
    { completedRefs chosen (completed ++ [type]) refs with purgeS3 := some request.purgeS3 }

/-! ### Requests -/

/-- One type of a request. -/
def step (config : Config) (request : Request) (id : OperationId) (chosen : List ResourceType) :
    Bool → List ResourceType → ResourceType → Prog Unit :=
  match request.action with
  | .create => createType config request id chosen
  | .verify => verifyType config request id chosen
  | .rotate => rotateType config request id chosen
  | .remove => removeType config request id chosen

/-- The confirmations of a removal. -/
def checkConfirmed (request : Request) : Except Error Unit :=
  if request.action = .remove ∧
      (request.confirmDestructive = false ∨ request.confirmName ≠ some request.resourceName) then
    .error (.validation "destructive storage removal requires the exact resource name")
  else .ok ()

/-- The entry checks against the resource rows: a creation that begins finds no row, the other
actions find one for each type, a removal only for the types it has not completed. -/
def checkRows (config : Config) (request : Request) (chosen : List ResourceType)
    (existing : Option Operation) (w : World) : Except Error Unit :=
  let present (type : ResourceType) : Bool := (w.resources.lookup type).isSome
  let completed := (existing.map (·.refs.completed)).getD []
  let missing (work : String) (types : List ResourceType) : Except Error Unit :=
    if types = [] then .ok ()
    else if existing.isSome then
      .error (.storageOperation ("unfinished storage " ++ work ++ " metadata is inconsistent"))
    else .error (.validation ("storage does not exist: " ++ joinTypes types))
  match request.action with
  | .create =>
    if existing.isNone && chosen.any present then
      .error (.validation ("storage already exists: " ++ joinTypes (chosen.filter present)))
    else .ok ()
  | .verify => missing "verification" (chosen.filter fun type => !present type)
  | .rotate => missing "rotation" (chosen.filter fun type => !present type)
  | .remove => do
    if completed.any (· ∉ chosen) then
      throw (.storageOperation "unfinished storage removal metadata is inconsistent")
    missing "removal" (chosen.filter fun type => !present type && !completed.contains type)
    if chosen.any fun type => present type && config.referenced type then
      let referenced := (chosen.filter fun type => present type && config.referenced type).take 1
      throw (.validation ("active deployment references " ++ joinTypes referenced ++ " storage '" ++
        request.resourceName ++ "'"))

/-- The operation that a request resumes or begins. -/
def openOperation (config : Config) (request : Request) (chosen : List ResourceType)
    (existing : Option Operation) : Prog (OperationId × List ResourceType) :=
  match existing with
  | some op => pure (op.operationId, op.refs.completed)
  | none => do
    begin config request chosen (if request.action = .remove then "confirmed" else "validated")
    pure (request.operationId, [])

/-- `create`, `verify`, `rotate` and `remove` -/
def mutate (config : Config) (request : Request) :
    Prog (List ResourceType × List ResourceType) := do
  let chosen ← Program.inspect fun _ => selected request.types
  Program.inspect fun _ => checkConfirmed request
  let existing ← Program.inspect (existingOperation request chosen)
  Program.inspect (checkRows config request chosen existing)
  let (id, completed) ← openOperation config request chosen existing
  let completed ← each (step config request id chosen) chosen existing.isSome completed
  completeOperation id chosen completed

end Storage
end Controller
end OpenstackPlatform
