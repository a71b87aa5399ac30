import OpenstackPlatform.Json
import OpenstackPlatform.Library.Text
import OpenstackPlatform.Validation

/-!
# The rows of the controller database

The tables of `database.py` that the operation journal and the deployment services write, one row
type each.  Statuses with a `CHECK (status IN (...))` constraint are inductive types; kinds, scopes
and phases are open tokens in the source and stay strings.

Times are whole seconds.  `utc_now` has second resolution, and the one timestamp with microseconds,
a retry's `next_at`, is only ever compared with it; the comparison is of ISO texts, in which
`...:07.250000Z` precedes `...:07Z`, so it sees the whole second.

The columns that only present an operation to its owner are left out: `safe_error`, `started_at`
and `created_at` are written and never read by the functions modelled here.
-/

namespace OpenstackPlatform
namespace Controller

open Library

/-- An operation, request or deployment ID: the text of a UUID. -/
abbrev OperationId := String

/-- Seconds since the epoch. -/
abbrev Timestamp := Nat

/-! ## Refs -/

/-- The `finishing_retry` record inside an accepted operation's refs. -/
structure FinishingRetry where
  attempts : Nat
  nextAt : Option Timestamp
  deriving DecidableEq, Repr

/-- The refs of an operation.  The retry record is the one key the journal itself writes; it is
kept apart from the keys the services write. -/
structure Refs where
  entries : Table String Json
  finishingRetry : Option FinishingRetry

namespace Refs

/-- `{}` -/
def empty : Refs := ⟨∅, none⟩

/-- A dictionary of the services' keys. -/
def ofList (members : List (String × Json)) : Refs :=
  ⟨(members.map fun m => ⟨m.1, m.2⟩).toAList, none⟩

/-- `refs.get(key)` -/
def get (refs : Refs) (key : String) : Json := (refs.entries.lookup key).getD .null

/-- `{**refs, **update}` -/
def merge (refs update : Refs) : Refs :=
  ⟨update.entries ∪ refs.entries, update.finishingRetry.or refs.finishingRetry⟩

/-- `{**refs, "finishing_retry": retry}` -/
def withRetry (refs : Refs) (retry : FinishingRetry) : Refs :=
  { refs with finishingRetry := some retry }

/-- The bytes of the retry record's value.  `next_at` is an ISO time of 27 characters. -/
def retrySize (retry : FinishingRetry) : Nat :=
  24 + (toString retry.attempts).length + (if retry.nextAt.isSome then 29 else 4)

/-- The members of the encoded object, as a list. -/
def members (refs : Refs) : List (String × Json) := refs.entries.entries.map fun e => (e.1, e.2)

/-- The bytes of the encoded refs. -/
def size (refs : Refs) : Nat :=
  match refs.finishingRetry with
  | none => 2 + Json.separatorSize refs.members.length + Json.sizeMembers refs.members
  | some retry =>
    2 + refs.members.length + Json.sizeMembers refs.members +
      (Json.stringSize "finishing_retry" + 1 + retrySize retry)

end Refs

/-! ## Operations and dispatches -/

/-- `operations.status` -/
inductive OperationStatus where
  | running
  | succeeded
  | failed
  | recoveryRequired
  deriving DecidableEq, Repr

/-- `status IN ('running','recovery_required')` -/
def OperationStatus.nonterminal : OperationStatus → Bool
  | .running | .recoveryRequired => true
  | .succeeded | .failed => false

/-- A row of `operations`, without its primary key. -/
structure Operation where
  kind : String
  scope : String
  status : OperationStatus
  phase : String
  deadlineAt : String
  refs : Refs
  candidateDigest : Option String
  cleanupState : String
  finishing : Bool

/-- `operation_dispatches.status` -/
inductive DispatchStatus where
  | pending
  | running
  | finished
  | recoveryRequired
  deriving DecidableEq, Repr

/-- `status IN ('pending','running','recovery_required')` -/
def DispatchStatus.active : DispatchStatus → Bool
  | .finished => false
  | _ => true

/-- A row of `operation_dispatches`, without its primary key. -/
structure OperationDispatch where
  kind : String
  scope : String
  status : DispatchStatus
  updatedAt : Timestamp
  finishing : Bool
  deriving DecidableEq, Repr

/-- A row of `idempotency_requests`, without its primary key. -/
structure IdempotencyRequest where
  requestFingerprint : String
  resultKind : Option String
  resultId : Option String
  deriving DecidableEq, Repr

/-! ## Applications -/

/-- A row of `applications`, without its primary key. -/
structure Application where
  slug : String
  repositoryUrl : Option String
  desiredRunning : Bool
  workerServerId : Option String
  workerServerName : Option String
  workerPortId : Option String
  workerPortName : Option String
  workerFlavor : String
  schedulerCpuMhz : Nat
  schedulerMemoryMib : Nat
  deriving DecidableEq, Repr

/-- `deployment_attempts.status` -/
inductive DeploymentStatus where
  | queued
  | building
  | deploying
  | succeeded
  | failed
  | recoveryRequired
  deriving DecidableEq, Repr

/-- `status IN ('queued','building','deploying','recovery_required')` -/
def DeploymentStatus.unfinished : DeploymentStatus → Bool
  | .succeeded | .failed => false
  | _ => true

/-- A row of `deployment_attempts`, without its primary key.  The configuration is kept as the text
it was stored as; nothing in the table says that it can be read. -/
structure DeploymentAttempt where
  applicationId : String
  status : DeploymentStatus
  sourceCommit : String
  requestedRef : String
  configurationRevision : Nat
  configurationJson : Text
  configurationSha256 : String
  environmentRevision : Nat
  idempotencyRequestId : OperationId
  recipeHash : Option String
  imageDigest : Option String
  nomadJob : Option String
  nomadJobSha256 : Option String
  nomadVersion : Option Nat
  healthPath : String
  applicationPort : Nat
  buildLogPath : Option String
  safeError : Option String
  cleanupState : Option String
  requestedAt : Timestamp
  updatedAt : Timestamp
  acceptedAt : Option Timestamp
  lastHealthyAt : Option Timestamp
  deriving DecidableEq, Repr

/-- The evidence an accepted deployment must carry. -/
def DeploymentAttempt.evident (a : DeploymentAttempt) : Bool :=
  a.recipeHash.isSome && a.imageDigest.isSome && a.nomadJob.isSome && a.nomadJobSha256.isSome &&
    a.nomadVersion.isSome && a.buildLogPath.isSome && a.acceptedAt.isSome && a.lastHealthyAt.isSome

/-- The `CHECK` constraints of `deployment_attempts`.  Those on the JSON text hold of every object
that was encoded, and are left out. -/
def DeploymentAttempt.checked (a : DeploymentAttempt) : Bool :=
  Validation.isSha256Hex a.configurationSha256 && 1 ≤ a.applicationPort &&
    a.applicationPort ≤ 65535 &&
    (a.status != .succeeded || a.evident) &&
    ((a.status != .failed && a.status != .recoveryRequired) || a.safeError.isSome)

/-- `active_deployments.lifecycle_state` -/
inductive LifecycleState where
  | running
  | stopped
  deriving DecidableEq, Repr

/-- A row of `active_deployments`, without its primary key. -/
structure ActiveDeployment where
  deploymentId : OperationId
  lifecycleState : LifecycleState
  deriving DecidableEq, Repr

/-! ## The partial unique indexes -/

namespace Operation

/-- The operation is running or waits for recovery. -/
def nonterminal (o : Operation) : Bool := o.status.nonterminal

/-- `one_unfinished_operation_per_scope` -/
def unfinishedScope (o : Operation) : Option String :=
  if o.nonterminal && !o.finishing then some o.scope else none

/-- `one_finishing_operation_per_scope` -/
def finishingScope (o : Operation) : Option String :=
  if o.nonterminal && o.finishing then some o.scope else none

theorem unfinishedScope_eq_some {o : Operation} {s : String} :
    o.unfinishedScope = some s ↔ o.nonterminal = true ∧ o.finishing = false ∧ o.scope = s := by
  rw [unfinishedScope]
  cases o.nonterminal <;> cases o.finishing <;> simp

theorem finishingScope_eq_some {o : Operation} {s : String} :
    o.finishingScope = some s ↔ o.nonterminal = true ∧ o.finishing = true ∧ o.scope = s := by
  rw [finishingScope]
  cases o.nonterminal <;> cases o.finishing <;> simp

end Operation

namespace OperationDispatch

/-- `one_active_dispatch_per_scope` -/
def activeScope (d : OperationDispatch) : Option String :=
  if d.status.active && !d.finishing then some d.scope else none

/-- `one_finishing_dispatch_per_scope` -/
def finishingScope (d : OperationDispatch) : Option String :=
  if d.status.active && d.finishing then some d.scope else none

theorem activeScope_eq_some {d : OperationDispatch} {s : String} :
    d.activeScope = some s ↔ d.status.active = true ∧ d.finishing = false ∧ d.scope = s := by
  rw [activeScope]
  cases d.status.active <;> cases d.finishing <;> simp

theorem finishingScope_eq_some {d : OperationDispatch} {s : String} :
    d.finishingScope = some s ↔ d.status.active = true ∧ d.finishing = true ∧ d.scope = s := by
  rw [finishingScope]
  cases d.status.active <;> cases d.finishing <;> simp

end OperationDispatch

/-- `one_unfinished_deployment_per_application` -/
def DeploymentAttempt.unfinishedApplication (a : DeploymentAttempt) : Option String :=
  if a.status.unfinished then some a.applicationId else none

/-- The `UNIQUE` constraint on `idempotency_request_id`. -/
def DeploymentAttempt.request (a : DeploymentAttempt) : Option OperationId :=
  some a.idempotencyRequestId

end Controller
end OpenstackPlatform
