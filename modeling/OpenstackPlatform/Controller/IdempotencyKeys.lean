import OpenstackPlatform.Controller.Applications
import OpenstackPlatform.Controller.CallEffects
import OpenstackPlatform.Controller.DeploymentAttempts

/-!
# Idempotency keys

A caller names each change with a key.  A handler of `api.py` claims the key with the fingerprint of
its request, finds out what the key already produced, and otherwise makes the change under the key
itself: an operation is dispatched under the key, an application is declared under it, a deployment
is attempted under it.  Four writers fill the result of a key: `complete_idempotency_request`,
`enqueue_operation_dispatch`, `create_deployment_attempt`, and the claim, which leaves it empty.

A handler stands before one transaction or one read of the database, which `Handler` names.  Between
two steps of a handler anything else may happen: steps of other handlers, of the work of a
dispatched key, and of any other caller of the database.  A stop of the process forgets every
handler and keeps the database, so it can separate a claim from the change and the change from its
completion.

* `completeIdempotencyRequest`.
* `Handler`, `ApiRequest.advance`: one step of `_external`, `_create_application` or
  `_label_storage`.
* `Transaction`: what else is written; `Transaction.worksFor` are the writes that the work of a key
  makes for it.
* `Service`, `ServiceEvent`, `KeyStep`: the steps of the whole, each with the rows it inserted.
-/

namespace OpenstackPlatform
namespace Controller

open Library Validation

/-! ## The completion -/

/-- `complete_idempotency_request` -/
def completeIdempotencyRequest (requestId resultKind resultId : String) (db : Database) :
    Except Error Database := do
  checkUuid "request_id" requestId
  operationToken "result kind" resultKind
  checkUuid "idempotency result ID" resultId
  match db.getRequest requestId with
  | none => .error (.database "idempotency request is missing")
  | some existing =>
    if existing.resultId.isSome then
      require (existing.resultKind == some resultKind && existing.resultId == some resultId)
        (.idempotencyConflict "idempotency request already has a different result")
      return db
    else
      return db.putRequest requestId
        { existing with resultKind := some resultKind, resultId := some resultId }

/-! ## Handlers -/

/-- What a request asks for. -/
inductive Endpoint where
  /-- An operation of this kind in this scope. -/
  | external (kind scope : String)
  | createApplication (applicationSlug : String)
  | labelStorage (resourceId : String)
  deriving DecidableEq, Repr

/-- A request: its key, the fingerprint of its method, path and body, and what it asks for. -/
structure ApiRequest where
  key : OperationId
  fingerprint : String
  endpoint : Endpoint
  deriving DecidableEq, Repr

/-- How a handler ends: with the ID of what it made or found, with an exception of the database
layer, or with an `HttpError`. -/
inductive Reply where
  | result (id : String)
  | raised (error : Error)
  | http (status : Nat) (code : String)
  deriving DecidableEq, Repr

/-- The reply carries no result. -/
def Reply.failed : Reply → Bool
  | .result _ => false
  | .raised _ | .http _ _ => true

/-- Where a handler stands. -/
inductive Handler where
  /-- before `claim_idempotency_request` -/
  | claiming
  /-- the claim inserted its row and reads it back -/
  | rereading
  /-- `claimed` is known -/
  | claimed (row : IdempotencyRequest)
  /-- `_external`, before `executor.submit` -/
  | submitting
  /-- `_external`, before `executor.resubmit_recovery` of the earlier result -/
  | resubmitting (operationId : OperationId)
  /-- `_create_application`, before `get_application` of the key -/
  | looking
  /-- `_create_application`, before `applications.declare` -/
  | declaring
  /-- `_create_application`, after the declaration, before the application is read -/
  | reloading (applicationId : String)
  /-- before `complete_idempotency_request` -/
  | completing (resultKind resultId : String)
  /-- `_create_application`, before the application of an earlier result is read -/
  | loading (applicationId : String)
  | replied (reply : Reply)
  deriving DecidableEq, Repr

/-- What the rest of the program settles in a step of a handler: the time, the policy of a new
application, and whether the executor refuses its item before the transaction. -/
structure Surroundings where
  now : Timestamp
  policy : DeclarePolicy
  executorRefuses : Option Error

/-- `_is_recovery_result`, of a result. -/
def recoveryResult (db : Database) (resultId : OperationId) : Bool :=
  match db.getDispatch resultId, db.getOperation resultId with
  | some dispatch, some operation =>
    dispatch.status == .recoveryRequired &&
      (operation.status == .recoveryRequired || operation.finishing)
  | _, _ => false

/-- `_application`: the application, or 404. -/
def findApplication (db : Database) (identifier : String) : Except Reply String :=
  if isUuid identifier then
    match getApplication db identifier with
    | some (id, _) => .ok id
    | none => .error (.http 404 "APPLICATION_NOT_FOUND")
  else .error (.raised (.validation "application ID must be a canonical lowercase UUID"))

/-- A transaction, and the stage after it. -/
def Handler.commit (db : Database) (x : Except Error Database) (next : Handler) :
    Database × Handler :=
  match x with
  | .ok db' => (db', next)
  | .error e => (db, .replied (.raised e))

namespace ApiRequest

variable (r : ApiRequest) (env : Surroundings) (db : Database)

/-- `_claim`.  A row that was there is returned from the transaction; a new one is read after it. -/
def claim : Database × Handler :=
  Handler.commit db (claimIdempotencyRequest r.key r.fingerprint db)
    (match db.getRequest r.key with
      | some existing => .claimed existing
      | none => .rereading)

/-- What follows the claim: the earlier result, or the change. -/
def route (resultId : Option String) : Handler :=
  match r.endpoint, resultId with
  | .external _ _, some id =>
    if recoveryResult db id then .resubmitting id else .replied (.result id)
  | .external _ _, none => .submitting
  | .createApplication _, some id => .loading id
  | .createApplication _, none => .looking
  | .labelStorage _, some id => .replied (.result id)
  | .labelStorage resourceId, none => .completing "storage" resourceId

/-- `executor.submit`, for a request that asks for an operation. -/
def submit : Database × Handler :=
  match r.endpoint, env.executorRefuses with
  | .external _ _, some e => (db, .replied (.raised e))
  | .external kind scope, none =>
    Handler.commit db ((enqueueOperationDispatch r.key kind scope env.now db).map Prod.snd)
      (.replied (.result r.key))
  | _, _ => (db, .submitting)

/-- `executor.resubmit_recovery`, for a request that asks for an operation. -/
def resubmit (operationId : OperationId) : Database × Handler :=
  match r.endpoint, env.executorRefuses with
  | .external _ _, some e => (db, .replied (.raised e))
  | .external kind scope, none =>
    Handler.commit db (requeueRecoveryDispatch operationId kind scope false env.now db)
      (.replied (.result operationId))
  | _, _ => (db, .resubmitting operationId)

/-- The application that an earlier call of the same request declared and did not complete. -/
def lookFor (applicationSlug : String) : Handler :=
  match getApplication db r.key with
  | none => .declaring
  | some (id, application) =>
    if application.slug == applicationSlug then .completing "application" id
    else .replied (.raised (.idempotencyConflict "application result does not match request"))

/-- `applications.declare(slug, application_id=key)` -/
def declareKey (applicationSlug : String) : Database × Handler :=
  match declare env.policy r.key applicationSlug (some r.key) db with
  | .ok (created, db') => (db', .reloading created.applicationId)
  | .error e => (db, .replied (.raised e))

/-- One step of a handler. -/
def advance : Handler → Database × Handler
  | .claiming => r.claim db
  | .rereading =>
    match db.getRequest r.key with
    | some row => (db, .claimed row)
    | none => (db, .replied (.raised (.value "AssertionError")))
  | .claimed row => (db, r.route db row.resultId)
  | .submitting => r.submit env db
  | .resubmitting operationId => r.resubmit env db operationId
  | .looking =>
    match r.endpoint with
    | .createApplication applicationSlug => (db, r.lookFor db applicationSlug)
    | _ => (db, .looking)
  | .declaring =>
    match r.endpoint with
    | .createApplication applicationSlug => r.declareKey env db applicationSlug
    | _ => (db, .declaring)
  | .reloading applicationId =>
    match findApplication db applicationId with
    | .ok id => (db, .completing "application" id)
    | .error reply => (db, .replied reply)
  | .completing resultKind resultId =>
    Handler.commit db (completeIdempotencyRequest r.key resultKind resultId db)
      (.replied (.result resultId))
  | .loading applicationId =>
    match findApplication db applicationId with
    | .ok id => (db, .replied (.result id))
    | .error reply => (db, .replied reply)
  | .replied reply => (db, .replied reply)

end ApiRequest

/-! ## Other writers -/

/-- One transaction of the database layer. -/
inductive Transaction where
  | journal (call : Call)
  | complete (requestId resultKind resultId : String)
  | createAttempt (r : CreateAttempt) (now : Timestamp)
  /-- A write of an attempt that exists; its request does not change. -/
  | updateAttempt (deploymentId : OperationId) (update : DeploymentAttempt → DeploymentAttempt)

/-- `checkpoint_deployment_attempt`, `accept_deployment`: a write of one row that keeps the request
it was created for. -/
def updateDeploymentAttempt (deploymentId : OperationId)
    (update : DeploymentAttempt → DeploymentAttempt) (db : Database) : Except Error Database :=
  match db.attempts.lookup deploymentId with
  | none => .error (.database "deployment attempt is missing")
  | some row =>
    db.putAttempt deploymentId
      { update row with idempotencyRequestId := row.idempotencyRequestId }

/-- The transaction, with the database it leaves. -/
def Transaction.run (sha256 : Text → String) : Transaction → Database → Except Error Database
  | .journal call, db => call.run db
  | .complete requestId resultKind resultId, db =>
    completeIdempotencyRequest requestId resultKind resultId db
  | .createAttempt r now, db => .ok (createDeploymentAttempt sha256 r now db).1
  | .updateAttempt deploymentId update, db => updateDeploymentAttempt deploymentId update db

/-- The transactions that the work of a key makes: it claims the key again, writes the operation
and the dispatch of the key, and creates and writes the deployment attempt of the key. -/
def Transaction.worksFor (key : OperationId) : Transaction → Bool
  | .journal (.claimIdempotencyRequest requestId _) => requestId == key
  | .journal call => call.target == some key
  | .complete _ _ _ => false
  | .createAttempt r _ => r.deploymentId == key && r.idempotencyRequestId == key
  | .updateAttempt deploymentId _ => deploymentId == key

/-! ## Runs -/

/-- The database, and the handlers that run. -/
structure Service where
  db : Database
  handlers : List (ApiRequest × Handler)

/-- One event. -/
inductive ServiceEvent where
  | arrive (r : ApiRequest)
  | advance (n : Nat) (env : Surroundings)
  /-- A check of a handler that concerns no key raises: a missing application, a helper that does
  not answer. -/
  | refuse (n : Nat) (reply : Reply)
  | work (key : OperationId) (t : Transaction)
  | other (t : Transaction)
  | stop

/-- The tables whose rows a key may own. -/
inductive RowKind where
  | operation
  | dispatch
  | deployment
  | application
  deriving DecidableEq, Repr

/-- The keys of the rows of a table, one for each row. -/
def Database.keysOf (db : Database) : RowKind → List OperationId
  | .operation => db.operations.keys
  | .dispatch => db.dispatches.keys
  | .deployment => Table.indexed DeploymentAttempt.request db.attempts
  | .application => db.applications.keys

/-- The keys of the rows of a table that were inserted between two states. -/
def insertedKeys (before after : Database) (kind : RowKind) : List OperationId :=
  (after.keysOf kind).filter fun key => !(before.keysOf kind).contains key

/-- The rows that were inserted between two states: the table and the key of each. -/
def insertedRows (before after : Database) : List (RowKind × OperationId) :=
  [RowKind.operation, .dispatch, .deployment, .application].flatMap fun kind =>
    (insertedKeys before after kind).map fun key => (kind, key)

/-- Work runs under keys that have a dispatch. -/
def workIssued (db : Database) (key : OperationId) (t : Transaction) : Bool :=
  (db.getDispatch key).isSome && t.worksFor key

/-- The service after one event, and the key the event is for. -/
def Service.next (sha256 : Text → String) (s : Service) :
    ServiceEvent → Option (Service × Option OperationId)
  | .arrive r => some (⟨s.db, s.handlers ++ [(r, .claiming)]⟩, some r.key)
  | .advance n env =>
    s.handlers[n]?.map fun (r, handler) =>
      let (db', handler') := r.advance env s.db handler
      (⟨db', s.handlers.set n (r, handler')⟩, some r.key)
  | .refuse n reply =>
    match s.handlers[n]? with
    | some (_, .replied _) | none => none
    | some (r, _) =>
      if reply.failed then some (⟨s.db, s.handlers.set n (r, .replied reply)⟩, some r.key)
      else none
  | .work key t =>
    if workIssued s.db key t then
      match t.run sha256 s.db with
      | .ok db' => some (⟨db', s.handlers⟩, some key)
      | .error _ => some (s, some key)
    else none
  | .other t =>
    match t.run sha256 s.db with
    | .ok db' => some (⟨db', s.handlers⟩, none)
    | .error _ => some (s, none)
  | .stop => some (⟨s.db, []⟩, none)

/-- What a step is for and what it inserted. -/
structure KeyEffect where
  key : Option OperationId
  inserted : List (RowKind × OperationId)
  deriving DecidableEq, Repr

/-- One event, with its effect. -/
def Service.step (sha256 : Text → String) (s : Service) (e : ServiceEvent) :
    Option (Service × KeyEffect) :=
  (s.next sha256 e).map fun (s', key) => (s', ⟨key, insertedRows s.db s'.db⟩)

/-- One step of a run. -/
def KeyStep (sha256 : Text → String) (s : Service) (l : ServiceEvent × KeyEffect) (s' : Service) :
    Prop :=
  s.step sha256 l.1 = some (s', l.2)

end Controller
end OpenstackPlatform
