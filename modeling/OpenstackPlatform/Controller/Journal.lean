import OpenstackPlatform.Controller.Database
import Mathlib.Data.List.Sort

/-!
# The operation journal

The functions of `database.py` that write `idempotency_requests`, `operation_dispatches` and
`operations`, and the retry schedule of `finishing_retries.py`.  Each runs one transaction.

An operation is *unfinished* (foreground) while it is running or waits for recovery and is not
marked finishing; it is *finishing* once its deployment was accepted and only cleanup remains.  A
scope may hold one of each.  `checkFinishingAdmission` decides which foreground kinds may start
next to a finishing operation.
-/

namespace OpenstackPlatform
namespace Controller

open Library Validation

/-! ## Checks -/

/-- `_MAX_REFS_BYTES` -/
def maxRefsBytes : Nat := 16384

/-- `_refs_json`: the refs may be stored. -/
def checkRefs (refs : Refs) : Except Error Unit :=
  match Json.walkMembers refs.members with
  | some key => .error (.validation s!"operation refs key '{key}' may contain secret material")
  | none =>
    require (refs.size ≤ maxRefsBytes)
      (.validation "operation refs exceed their 16384-byte limit")

/-- `uuid(value, field=field)` -/
def checkUuid (field value : String) : Except Error Unit :=
  require (isUuid value) (.validation s!"{field} must be a canonical lowercase UUID")

/-- `_operation_token(value, field=field)` -/
def operationToken (field value : String) : Except Error Unit :=
  require (isOperationToken value) (.validation s!"operation {field} is malformed")

/-- `_cleanup_state` -/
def cleanupStateToken (value : String) : Except Error Unit :=
  require (isCleanupState value) (.validation "operation cleanup state is malformed")

/-- A check of an optional argument, made only when it is given. -/
def checkGiven {α : Type} (check : α → Except Error Unit) : Option α → Except Error Unit
  | some value => check value
  | none => .ok ()

/-- The check of `deadline_at` that `begin_operation` and `renew_operation_deadline` make. -/
def checkDeadline (deadlineAt : String) : Except Error Unit :=
  require (deadlineAt.length ≤ 64) (.validation "operation deadline is malformed")

/-! ## Requests and dispatches -/

/-- `claim_idempotency_request` -/
def claimIdempotencyRequest (requestId fingerprint : String) (db : Database) :
    Except Error Database := do
  checkUuid "request_id" requestId
  require (isSha256Hex fingerprint)
    (.validation "request fingerprint must be 64 lowercase hexadecimal characters")
  match db.getRequest requestId with
  | some existing =>
    require (existing.requestFingerprint == fingerprint)
      (.idempotencyConflict "idempotency request was already used for different input")
    return db
  | none => return db.putRequest requestId ⟨fingerprint, none, none⟩

/-- `get_unfinished_operation` -/
def getUnfinishedOperation (db : Database) (scope : String) : Option (OperationId × Operation) :=
  Table.find? db.operations fun _ o => o.unfinishedScope == some scope

/-- `get_finishing_operation` -/
def getFinishingOperation (db : Database) (scope : String) : Option (OperationId × Operation) :=
  Table.find? db.operations fun _ o => o.finishingScope == some scope

/-- The foreground dispatch of a scope that is pending, running or waits for recovery. -/
def getActiveDispatch (db : Database) (scope : String) :
    Option (OperationId × OperationDispatch) :=
  Table.find? db.dispatches fun _ d => d.activeScope == some scope

/-- The application's row is not retired. -/
def notTombstoned (db : Database) (applicationId : String) : Bool :=
  (Table.find? db.tombstones fun _ id => id == applicationId).isNone

/-- `get_application`: by ID, else by slug; SQLite evaluates the two terms of the `OR` in this
order. -/
def getApplication (db : Database) (identifier : String) : Option (String × Application) :=
  match db.applications.lookup identifier with
  | some application =>
    if notTombstoned db identifier then some (identifier, application)
    else Table.find? db.applications fun id a => a.slug == identifier && notTombstoned db id
  | none => Table.find? db.applications fun id a => a.slug == identifier && notTombstoned db id

/-- The kinds `check_finishing_admission` always admits. -/
def admittedKinds : List String :=
  ["app.env.set", "app.env.unset", "app.env.import", "storage.verify", "storage.rotate",
    "storage.limits.set", "storage.usage.collect", "app.restart"]

/-- The last condition for `app.disable` while a predecessor is being cleaned up: the old job is
gone, and the cleanup cannot remove the active placement. -/
def disableAdmitted (refs : Refs) : Bool :=
  ((refs.get "predecessor_job_id").isNone || (refs.get "predecessor_job_absent").isTrue) &&
    ((refs.get "predecessor_worker_application_id").isNone ||
      match (refs.get "worker_application_id").asString? with
      | some active =>
        (refs.get "predecessor_worker_application_id").asString? != some active
      | none => false)

/-- `check_finishing_admission`, for the finishing operation of the scope. -/
def admits (db : Database) (scope kind : String) (finishing : Operation) : Bool :=
  if admittedKinds.contains kind then true
  else if (kind == "app.enable" || kind == "app.disable") &&
      (finishing.phase == "predecessor_cleanup" || finishing.phase == "accepted") then
    if kind == "app.enable" then
      match getApplication db (removePrefix "app-" scope) with
      | some (_, application) => application.desiredRunning
      | none => false
    else finishing.phase == "accepted" || disableAdmitted finishing.refs
  else false

/-- `check_finishing_admission` -/
def checkFinishingAdmission (db : Database) (scope kind : String) : Except Error Unit :=
  match getFinishingOperation db scope with
  | none => .ok ()
  | some (id, finishing) =>
    require (admits db scope kind finishing) (.finishingOperationConflict id)

/-- `enqueue_operation_dispatch`: the database and whether a dispatch was created. -/
def enqueueOperationDispatch (operationId kind scope : String) (now : Timestamp)
    (db : Database) : Except Error (Bool × Database) := do
  checkUuid "operation_id" operationId
  operationToken "kind" kind
  operationToken "scope" scope
  match db.getDispatch operationId with
  | some existing =>
    require (existing.kind == kind && existing.scope == scope)
      (.idempotencyConflict "operation dispatch does not match request")
    return (false, db)
  | none =>
    match db.getRequest operationId with
    | none => .error (.database "idempotency request is missing")
    | some request =>
      if request.resultId.isSome then
        require (request.resultKind == some "operation" && request.resultId == some operationId)
          (.idempotencyConflict "idempotency request already has a different result")
        .error (.database "idempotency result has no operation dispatch")
      else
        match getActiveDispatch db scope with
        | some (id, active) => .error (.unfinishedOperation scope id active.kind)
        | none =>
          checkFinishingAdmission db scope kind
          match getUnfinishedOperation db scope with
          | some (id, unfinished) => .error (.unfinishedOperation scope id unfinished.kind)
          | none =>
            let db ← db.putDispatch operationId ⟨kind, scope, .pending, now, false⟩
            return (true, db.putRequest operationId
              { request with resultKind := some "operation", resultId := some operationId })

/-- The condition under which `requeue_recovery_dispatch` takes a dispatch. -/
def requeueEligible (kind scope : String) (dispatch : OperationDispatch)
    (operation : Operation) : Bool :=
  dispatch.status == .recoveryRequired && operation.nonterminal &&
    (operation.status == .recoveryRequired || operation.finishing) &&
    (dispatch.kind == kind && dispatch.scope == scope) &&
    (operation.kind == kind && operation.scope == scope)

/-- The retry record of refs, with `{}` for none. -/
def Refs.retry (refs : Refs) : FinishingRetry := refs.finishingRetry.getD ⟨0, none⟩

/-- The retry record `requeue_recovery_dispatch` writes, or its refusal of an automatic retry that
is not due. -/
def requeueRetry (automatic : Bool) (now : Timestamp) (retry : FinishingRetry) :
    Except Error FinishingRetry :=
  if automatic then
    match retry.nextAt with
    | some nextAt =>
      if nextAt ≤ now then .ok ⟨retry.attempts + 1, none⟩
      else .error (.database "finishing retry is not due")
    | none => .error (.database "finishing retry is not due")
  else .ok ⟨retry.attempts, none⟩

/-- `requeue_recovery_dispatch` -/
def requeueRecoveryDispatch (operationId kind scope : String) (automatic : Bool)
    (now : Timestamp) (db : Database) : Except Error Database := do
  checkUuid "operation_id" operationId
  operationToken "kind" kind
  operationToken "scope" scope
  match db.getDispatch operationId, db.getOperation operationId with
  | some dispatch, some operation =>
    require (requeueEligible kind scope dispatch operation)
      (.database "operation is not eligible for recovery dispatch")
    let pending : OperationDispatch := { dispatch with status := .pending, updatedAt := now }
    if operation.finishing then
      let retry ← requeueRetry automatic now operation.refs.retry
      checkRefs (operation.refs.withRetry retry)
      let db ← db.putOperation operationId
        { operation with refs := operation.refs.withRetry retry }
      db.putDispatch operationId pending
    else db.putDispatch operationId pending
  | _, _ => .error (.database "operation is not eligible for recovery dispatch")

/-- `set_operation_dispatch_status` -/
def setOperationDispatchStatus (operationId : OperationId) (status : DispatchStatus)
    (now : Timestamp) (db : Database) : Except Error Database := do
  checkUuid "operation_id" operationId
  require (status != .pending) (.validation "operation dispatch status is invalid")
  match db.getDispatch operationId with
  | none => .error (.database "operation dispatch is missing")
  | some dispatch =>
    db.putDispatch operationId { dispatch with status := status, updatedAt := now }

/-! ## Operations -/

/-- The arguments of `begin_operation`.  `storageCheck` is the `CapacityError` that
`storage_capacity.check` raises at this moment, if it raises one. -/
structure BeginOperation where
  operationId : OperationId
  kind : String
  scope : String
  phase : String
  deadlineAt : String
  refs : Refs
  storageCheck : Option (String × String)

/-- `kind in {...} and refs and ("memoryBytes" in quotas or "s3Bytes" in quotas)` -/
def BeginOperation.needsStorageCheck (r : BeginOperation) : Bool :=
  (r.kind == "storage.limits.set" || r.kind == "storage.usage.collect") &&
    ((r.refs.get "quotas").hasKey "memoryBytes" || (r.refs.get "quotas").hasKey "s3Bytes")

/-- The row `begin_operation` inserts. -/
def BeginOperation.row (r : BeginOperation) : Operation where
  kind := r.kind
  scope := r.scope
  status := .running
  phase := r.phase
  deadlineAt := r.deadlineAt
  refs := r.refs
  candidateDigest := none
  cleanupState := "pending"
  finishing := false

/-- The call of `storage_capacity.check` inside `begin_operation`. -/
def BeginOperation.checkStorage (r : BeginOperation) : Except Error Unit :=
  if r.needsStorageCheck then
    match r.storageCheck with
    | some (code, message) => .error (.capacity code message)
    | none => .ok ()
  else .ok ()

/-- `begin_operation` -/
def beginOperation (r : BeginOperation) (db : Database) : Except Error Database := do
  checkUuid "operation_id" r.operationId
  operationToken "kind" r.kind
  operationToken "scope" r.scope
  operationToken "phase" r.phase
  checkDeadline r.deadlineAt
  checkFinishingAdmission db r.scope r.kind
  match getUnfinishedOperation db r.scope with
  | some (id, existing) => .error (.unfinishedOperation r.scope id existing.kind)
  | none =>
    r.checkStorage
    checkRefs r.refs
    match db.getOperation r.operationId with
    | some _ => .error (.integrity .operationsPrimaryKey)
    | none => db.putOperation r.operationId r.row

/-- An update of one running or recovering operation. -/
def updateNonterminal (operationId : OperationId) (update : Operation → Operation)
    (db : Database) : Except Error Database :=
  match db.getOperation operationId with
  | some operation =>
    if operation.nonterminal then db.putOperation operationId (update operation)
    else .error (.database "operation is missing or already terminal")
  | none => .error (.database "operation is missing or already terminal")

/-- `renew_operation_deadline` -/
def renewOperationDeadline (operationId : OperationId) (deadlineAt : String) (db : Database) :
    Except Error Database := do
  checkUuid "operation_id" operationId
  checkDeadline deadlineAt
  updateNonterminal operationId
    (fun o => { o with deadlineAt := deadlineAt, status := .running }) db

/-- The optional arguments of `checkpoint_operation`. -/
structure Checkpoint where
  phase : String
  refs : Option Refs
  mergeRefs : Bool
  candidateDigest : Option String
  cleanupState : Option String

/-- The refs a checkpoint stores over those of the row. -/
def Checkpoint.storedRefs (c : Checkpoint) (row : Refs) : Option Refs :=
  c.refs.map fun refs => if c.mergeRefs then row.merge refs else refs

/-- The row after a checkpoint. -/
def Checkpoint.apply (c : Checkpoint) (o : Operation) : Operation :=
  { o with
    phase := c.phase
    refs := (c.storedRefs o.refs).getD o.refs
    candidateDigest := c.candidateDigest.or o.candidateDigest
    cleanupState := c.cleanupState.getD o.cleanupState }

/-- The checks of a checkpoint's arguments, before its transaction. -/
def Checkpoint.check (c : Checkpoint) : Except Error Unit := do
  operationToken "phase" c.phase
  checkGiven (fun digest => require (isOciDigestPin digest)
    (.validation "candidate_digest must be an image@sha256 digest pin")) c.candidateDigest
  checkGiven checkRefs c.refs
  checkGiven cleanupStateToken c.cleanupState

/-- The check of the merged refs inside the transaction. -/
def Checkpoint.checkStored (c : Checkpoint) (o : Operation) : Except Error Unit :=
  checkGiven checkRefs (c.storedRefs o.refs)

/-- `checkpoint_operation` -/
def checkpointOperation (operationId : OperationId) (c : Checkpoint) (db : Database) :
    Except Error Database := do
  checkUuid "operation_id" operationId
  c.check
  match db.getOperation operationId with
  | some operation =>
    if operation.nonterminal then
      c.checkStored operation
      db.putOperation operationId (c.apply operation)
    else .error (.database "operation is missing or already terminal")
  | none => .error (.database "operation is missing or already terminal")

/-- `mark_operation_finishing` -/
def markOperationFinishing (operationId : OperationId) (db : Database) :
    Except Error Database :=
  match db.getOperation operationId with
  | some operation =>
    if operation.kind == "app.deploy" || operation.kind == "app.enable" then do
      let db ← db.putOperation operationId
        { operation with finishing := true, cleanupState := "pending" }
      match db.getDispatch operationId with
      | some dispatch => db.putDispatch operationId { dispatch with finishing := true }
      | none => return db
    else .error (.database "finishing operation intent is missing")
  | none => .error (.database "finishing operation intent is missing")

/-- `_finish_operation` -/
def finishOperation (operationId : OperationId) (status : OperationStatus)
    (phase cleanupState : Option String) (db : Database) : Except Error Database := do
  checkUuid "operation_id" operationId
  checkGiven (operationToken "phase") phase
  checkGiven cleanupStateToken cleanupState
  updateNonterminal operationId
    (fun o => { o with
      status := status
      phase := phase.getD o.phase
      cleanupState := cleanupState.getD o.cleanupState }) db

/-- `mark_recovery_required` -/
def markRecoveryRequired (operationId : OperationId) (phase : Option String) :
    Database → Except Error Database :=
  finishOperation operationId .recoveryRequired phase none

/-- `record_finishing_failure` -/
def recordFinishingFailure (operationId : OperationId) (db : Database) :
    Except Error Database :=
  match db.getOperation operationId with
  | some operation =>
    if operation.finishing then finishOperation operationId .running none none db
    else .error (.database "accepted finishing intent is missing")
  | none => .error (.database "accepted finishing intent is missing")

/-- `mark_succeeded` -/
def markSucceeded (operationId : OperationId) (cleanupState : String) :
    Database → Except Error Database :=
  finishOperation operationId .succeeded none (some cleanupState)

/-- `mark_failed` -/
def markFailed (operationId : OperationId) (cleanupState : String) (db : Database) :
    Except Error Database := do
  require (cleanupState == "confirmed" || cleanupState == "not_required")
    (.validation "failed operations require confirmed or not_required cleanup")
  finishOperation operationId .failed none (some cleanupState) db

/-! ## Finishing retries -/

/-- `RETRY_DELAYS` -/
def retryDelays : List Nat := [60, 120, 240, 480, 600]

/-- The retry record `schedule` writes. -/
def scheduledRetry (now : Timestamp) (retry : FinishingRetry) : FinishingRetry :=
  ⟨retry.attempts, retryDelays[retry.attempts]?.map fun delay => now + delay⟩

/-- The refs `schedule` writes. -/
def scheduledRefs (now : Timestamp) (refs : Refs) : Refs :=
  refs.withRetry (scheduledRetry now refs.retry)

/-- The row `schedule` writes: without a next attempt the operation waits for its owner. -/
def scheduledRow (now : Timestamp) (operation : Operation) : Operation :=
  { operation with
    status :=
      if (scheduledRetry now operation.refs.retry).nextAt.isSome then .running
      else .recoveryRequired
    refs := scheduledRefs now operation.refs }

/-- `finishing_retries.schedule` -/
def schedule (operationId : OperationId) (now : Timestamp) (db : Database) :
    Except Error Database :=
  match db.getOperation operationId with
  | some operation =>
    if operation.finishing && operation.nonterminal then do
      checkRefs (scheduledRefs now operation.refs)
      db.putOperation operationId (scheduledRow now operation)
    else return db
  | none => return db

/-- The rows of the query of `due`, with the time of the next attempt. -/
def dueRows (now : Timestamp) (db : Database) : List (OperationId × Timestamp) :=
  db.operations.entries.filterMap fun e =>
    match db.getDispatch e.1, e.2.refs.retry.nextAt with
    | some d, some nextAt =>
      if e.2.finishing && e.2.status == .running && d.status == .recoveryRequired &&
          decide (nextAt ≤ now) then some (e.1, nextAt)
      else none
    | _, _ => none

/-- The rows that `LIMIT 32` leaves, earliest first. -/
def duePage (now : Timestamp) (db : Database) : List (OperationId × Timestamp) :=
  ((dueRows now db).insertionSort fun a b => a.2 ≤ b.2).take 32

/-- `finishing_retries.due` -/
def due (now : Timestamp) (db : Database) : List OperationId := (duePage now db).map Prod.fst

end Controller
end OpenstackPlatform
