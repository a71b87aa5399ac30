import OpenstackPlatform.Controller.DeploymentConfig
import OpenstackPlatform.Controller.Journal

/-!
# Deployment attempts

`create_deployment_attempt` and `get_deployment_attempt` of `database.py`.  An attempt keeps its
configuration as canonical JSON with the hash of that text, and the reader parses the text again.
The writer reads its own row back after the transaction: what that read raises, the call raises,
with the row committed.

* `DeploymentSnapshot`: an attempt as it is read, with its configuration.
* `readAttempt`, `getDeploymentAttempt`.
* `insertDeploymentAttempt`: the transaction, with `insertDeploymentAttempt_ok`.
* `createDeploymentAttempt`: the database after the call, and its result.
-/

namespace OpenstackPlatform
namespace Controller

open Library Validation

/-- `DeploymentAttempt`: a row with its configuration. -/
structure DeploymentSnapshot where
  row : DeploymentAttempt
  configuration : DeploymentConfiguration
  deriving DecidableEq, Repr

/-- The arguments of `create_deployment_attempt`. -/
structure CreateAttempt where
  deploymentId : OperationId
  applicationId : String
  sourceCommit : String
  requestedRef : String
  configurationRevision : Int
  configuration : DeploymentConfiguration
  environmentRevision : Int
  idempotencyRequestId : OperationId
  deriving DecidableEq, Repr

/-- `_revision` -/
def checkRevision (field : String) (value : Int) : Except Error Unit :=
  require (0 ≤ value) (.validation s!"{field} must be a non-negative integer")

/-- `commit(value)` -/
def checkCommit (value : String) : Except Error Unit :=
  require (isCommit value)
    (.validation "commit must be exactly 40 lowercase hexadecimal characters")

section

variable (sha256 : Text → String)

/-- `_deployment_attempt`: the row, when its text has the recorded hash, is accepted and is
canonical. -/
def readAttempt (row : DeploymentAttempt) : Except Error DeploymentSnapshot := do
  require (sha256 row.configurationJson == row.configurationSha256)
    (.database "deployment configuration snapshot hash does not match")
  let configuration ← parseConfiguration (.text row.configurationJson)
  require (configuration.canonicalJson == row.configurationJson)
    (.database "deployment configuration snapshot is not canonical")
  return ⟨row, configuration⟩

/-- `get_deployment_attempt` -/
def getDeploymentAttempt (db : Database) (deploymentId : OperationId) :
    Except Error (Option DeploymentSnapshot) := do
  checkUuid "deployment_id" deploymentId
  match db.attempts.lookup deploymentId with
  | none => return none
  | some row => (readAttempt sha256 row).map some

/-- The row that is inserted. -/
def CreateAttempt.row (r : CreateAttempt) (now : Timestamp) : DeploymentAttempt where
  applicationId := r.applicationId
  status := .queued
  sourceCommit := r.sourceCommit
  requestedRef := r.requestedRef
  configurationRevision := r.configurationRevision.toNat
  configurationJson := r.configuration.canonicalJson
  configurationSha256 := sha256 r.configuration.canonicalJson
  environmentRevision := r.environmentRevision.toNat
  idempotencyRequestId := r.idempotencyRequestId
  recipeHash := none
  imageDigest := none
  nomadJob := none
  nomadJobSha256 := none
  nomadVersion := none
  healthPath := r.configuration.healthPath
  applicationPort := r.configuration.port
  buildLogPath := none
  safeError := none
  cleanupState := none
  requestedAt := now
  updatedAt := now
  acceptedAt := none
  lastHealthyAt := none

/-- The checks of the arguments, before the transaction. -/
def CreateAttempt.check (r : CreateAttempt) : Except Error Unit := do
  checkUuid "deployment_id" r.deploymentId
  checkUuid "application_id" r.applicationId
  checkCommit r.sourceCommit
  require (isRequestedRef r.requestedRef) (.validation "requested source ref is malformed")
  checkRevision "configuration revision" r.configurationRevision
  checkRevision "environment revision" r.environmentRevision
  checkUuid "idempotency request ID" r.idempotencyRequestId

/-- A request that has a result takes only the attempt it has: the attempt, when it exists. -/
def CreateAttempt.earlierResult (r : CreateAttempt) (request : IdempotencyRequest)
    (db : Database) : Except Error (Option DeploymentSnapshot) :=
  if request.resultId.isSome then do
    require (request.resultId == some r.deploymentId &&
        (request.resultKind == some "deployment" || request.resultKind == some "operation"))
      (.idempotencyConflict "idempotency request already has a different result")
    let existing ← getDeploymentAttempt sha256 db r.deploymentId
    require (existing.isSome || request.resultKind != some "deployment")
      (.database "idempotency result deployment is missing")
    return existing
  else return none

/-- The insertion of the row, with its request's result. -/
def CreateAttempt.insert (r : CreateAttempt) (now : Timestamp) (request : IdempotencyRequest)
    (db : Database) : Except Error Database := do
  require (db.environmentRevisions.lookup r.applicationId == some r.environmentRevision.toNat)
    (.database "environment revision is missing or stale")
  require (Table.find? db.attempts fun _ a => a.unfinishedApplication == some r.applicationId).isNone
    (.database "application already has an unfinished deployment attempt")
  require (db.attempts.lookup r.deploymentId).isNone (.integrity .deploymentAttemptsPrimaryKey)
  let db ← db.putAttempt r.deploymentId (r.row sha256 now)
  return db.putRequest r.idempotencyRequestId
    { request with resultKind := some "deployment", resultId := some r.deploymentId }

/-- The transaction of `create_deployment_attempt`: the attempt that was there, or the database
with the new one. -/
def insertDeploymentAttempt (r : CreateAttempt) (now : Timestamp) (db : Database) :
    Except Error (DeploymentSnapshot ⊕ Database) := do
  r.check
  match db.getRequest r.idempotencyRequestId with
  | none => .error (.database "idempotency request is missing")
  | some request =>
    let existing ← r.earlierResult sha256 request db
    match existing with
    | some attempt => return .inl attempt
    | none =>
      let db ← r.insert sha256 now request db
      return .inr db

/-- `create_deployment_attempt`: the database after the call, and what it returns or raises. -/
def createDeploymentAttempt (r : CreateAttempt) (now : Timestamp) (db : Database) :
    Database × Except Error (Option DeploymentSnapshot) :=
  match insertDeploymentAttempt sha256 r now db with
  | .error e => (db, .error e)
  | .ok (.inl attempt) => (db, .ok (some attempt))
  | .ok (.inr db') => (db', getDeploymentAttempt sha256 db' r.deploymentId)

end

/-! ## What the calls do -/

variable {sha256 : Text → String}

/-- An insertion writes one row that was not there and the result of its request. -/
theorem CreateAttempt.insert_ok {r : CreateAttempt} {now : Timestamp}
    {request : IdempotencyRequest} {db db' : Database}
    (h : r.insert sha256 now request db = .ok db') :
    db.attempts.lookup r.deploymentId = none ∧
      ∃ db₁, db.putAttempt r.deploymentId (r.row sha256 now) = .ok db₁ ∧
        db' = db₁.putRequest r.idempotencyRequestId
          { request with resultKind := some "deployment", resultId := some r.deploymentId } := by
  simp only [CreateAttempt.insert, bind_eq_ok, require_eq_ok, Option.isNone_iff_eq_none] at h
  obtain ⟨-, -, -, -, -, hnone, db₁, hput, h⟩ := h
  exact ⟨hnone, db₁, hput, (Except.ok.inj h).symm⟩

/-- A call that inserts makes its checks on the state before it, and finds its request. -/
theorem insertDeploymentAttempt_ok {r : CreateAttempt} {now : Timestamp} {db db' : Database}
    (h : insertDeploymentAttempt sha256 r now db = .ok (.inr db')) :
    r.check = .ok () ∧ ∃ request, db.getRequest r.idempotencyRequestId = some request ∧
      r.earlierResult sha256 request db = .ok none ∧
      r.insert sha256 now request db = .ok db' := by
  simp only [insertDeploymentAttempt, check_bind_eq_ok] at h
  obtain ⟨hcheck, h⟩ := h
  cases hrequest : db.getRequest r.idempotencyRequestId with
  | none =>
    rw [hrequest] at h
    cases h
  | some request =>
    simp only [hrequest, bind_eq_ok] at h
    obtain ⟨existing, hexisting, h⟩ := h
    cases existing with
    | some attempt => cases Except.ok.inj h
    | none =>
      simp only [bind_eq_ok] at h
      obtain ⟨db₁, hinsert, h⟩ := h
      obtain rfl := Sum.inr.inj (Except.ok.inj h)
      exact ⟨hcheck, request, rfl, hexisting, hinsert⟩

end Controller
end OpenstackPlatform
