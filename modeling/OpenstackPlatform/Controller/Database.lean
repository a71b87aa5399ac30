import OpenstackPlatform.Controller.Rows
import OpenstackPlatform.Library.Checks

/-!
# The controller database

The tables of one controller database and the constraints SQLite enforces on every write.  The
four partial unique indexes of the operation journal, and the index and the checks of the deployment
attempts, are fields of `Database`, so a database that breaks one cannot be built: `putOperation`,
`putDispatch` and `putAttempt` are the only writes of the three tables, and they fail with
`sqlite3.IntegrityError` exactly when a constraint would break.

A function of `database.py` that runs one transaction is a function into `Except Error Database`
here: an exception rolls the transaction back, so the old database stays.

* `Error`: the exceptions, one constructor for each class that a caller tells apart.
* `Database`, `Database.empty`.
* `Database.putOperation`, `Database.putDispatch`, `Database.putAttempt`: the writes, with what a
  rejected one means.
-/

namespace OpenstackPlatform
namespace Controller

open Library

/-! ## Exceptions -/

/-- The constraints that can reject a write. -/
inductive Constraint where
  | oneUnfinishedOperationPerScope
  | oneFinishingOperationPerScope
  | oneActiveDispatchPerScope
  | oneFinishingDispatchPerScope
  | operationsPrimaryKey
  | oneUnfinishedDeploymentPerApplication
  | deploymentAttemptsCheck
  | deploymentAttemptsPrimaryKey
  | deploymentAttemptsIdempotencyRequestId
  | applicationsSlug
  | slugTombstonesPrimaryKey
  | environmentKeysPrimaryKey
  deriving DecidableEq, Repr

/-- The exceptions of the controller. -/
inductive Error where
  | validation (message : String)
  | database (message : String)
  | idempotencyConflict (message : String)
  | unfinishedOperation (scope operationId kind : String)
  | finishingOperationConflict (operationId : String)
  | dispatchQueueFull (message : String)
  | capacity (code message : String)
  | integrity (constraint : Constraint)
  | value (message : String)
  | type (message : String)
  | application (message : String)
  deriving DecidableEq, Repr

/-- The error comes from one of the four partial unique indexes of the journal. -/
def Error.fromIndex : Error → Bool
  | .integrity .oneUnfinishedOperationPerScope | .integrity .oneFinishingOperationPerScope
  | .integrity .oneActiveDispatchPerScope | .integrity .oneFinishingDispatchPerScope => true
  | _ => false

/-- `if not condition: raise error` -/
def require (condition : Bool) (error : Error) : Except Error Unit :=
  if condition then .ok () else .error error

variable {e : Error}

@[simp] theorem require_eq_ok {c : Bool} {u : Unit} : require c e = .ok u ↔ c = true := by
  cases c <;> simp [require]

@[simp] theorem require_eq_error {c : Bool} {e' : Error} :
    require c e = .error e' ↔ c = false ∧ e = e' := by
  cases c <;> simp [require]

/-- A computation that succeeds first succeeds at its first step. -/
@[simp] theorem bind_eq_ok {α β : Type} {x : Except Error α} {f : α → Except Error β} {b : β} :
    (x >>= f) = .ok b ↔ ∃ a, x = .ok a ∧ f a = .ok b :=
  Checks.bind_ok_iff

/-- A computation that fails does so at its first step or after it. -/
@[simp] theorem bind_eq_error {α β : Type} {x : Except Error α} {f : α → Except Error β}
    : (x >>= f) = .error e ↔ x = .error e ∨ ∃ a, x = .ok a ∧ f a = .error e := by
  cases x <;> simp [bind, Except.bind]

/-- A check followed by a computation succeeds when both do. -/
@[simp] theorem check_bind_eq_ok {β : Type} {x : Except Error Unit} {f : Unit → Except Error β}
    {b : β} : (x >>= f) = .ok b ↔ x = .ok () ∧ f () = .ok b := by
  cases x <;> simp [bind, Except.bind]

/-- A check followed by a computation fails at the check or after it. -/
@[simp] theorem check_bind_eq_error {β : Type} {x : Except Error Unit}
    {f : Unit → Except Error β} :
    (x >>= f) = .error e ↔ x = .error e ∨ (x = .ok () ∧ f () = .error e) := by
  cases x <;> simp [bind, Except.bind]

/-- The exception a computation raises. -/
def raised {α : Type} : Except Error α → Option Error
  | .ok _ => none
  | .error e => some e

theorem eq_error_of_raised {α : Type} {x : Except Error α} (h : raised x = some e) :
    x = .error e := by
  cases x with
  | ok a => exact absurd h (by simp [raised])
  | error e' => rw [Option.some.inj h]

/-- The computation does not fail because of one of the four indexes. -/
def IndexSafe {α : Type} (x : Except Error α) : Prop :=
  ∀ e, x = .error e → e.fromIndex = false

namespace IndexSafe

theorem ok {α : Type} (a : α) : IndexSafe (.ok a : Except Error α) := by
  intro e h
  cases h

theorem error {α : Type} {e : Error} (h : e.fromIndex = false) :
    IndexSafe (.error e : Except Error α) := by
  intro e' he
  cases he
  exact h

theorem of_exists {α : Type} {x : Except Error α} (h : ∃ a, x = .ok a) : IndexSafe x := by
  obtain ⟨a, rfl⟩ := h
  exact ok a

theorem require {c : Bool} {e : Error} (h : e.fromIndex = false) :
    IndexSafe (Controller.require c e) := by
  intro e' he
  obtain ⟨-, rfl⟩ := require_eq_error.mp he
  exact h

theorem bind {α β : Type} {x : Except Error α} {f : α → Except Error β} (hx : IndexSafe x)
    (hf : ∀ a, x = .ok a → IndexSafe (f a)) : IndexSafe (x >>= f) := by
  intro e h
  obtain h | ⟨a, ha, h⟩ := bind_eq_error.mp h
  · exact hx e h
  · exact hf a ha e h

end IndexSafe

/-! ## The tables -/

/-- One controller database. -/
structure Database where
  requests : Table OperationId IdempotencyRequest
  dispatches : Table OperationId OperationDispatch
  operations : Table OperationId Operation
  applications : Table String Application
  /-- `application_slug_tombstones`: the application each retired slug belonged to. -/
  tombstones : Table String String
  environmentRevisions : Table String Nat
  /-- `environment_keys`: the owner of each key name of an application. -/
  environmentKeys : Table (String × String) String
  attempts : Table OperationId DeploymentAttempt
  activeDeployments : Table String ActiveDeployment
  one_unfinished_operation : Table.UniqueIndex Operation.unfinishedScope operations
  one_finishing_operation : Table.UniqueIndex Operation.finishingScope operations
  one_active_dispatch : Table.UniqueIndex OperationDispatch.activeScope dispatches
  one_finishing_dispatch : Table.UniqueIndex OperationDispatch.finishingScope dispatches
  one_unfinished_attempt : Table.UniqueIndex DeploymentAttempt.unfinishedApplication attempts
  one_attempt_per_request : Table.UniqueIndex DeploymentAttempt.request attempts
  checked_attempts : ∀ id a, attempts.lookup id = some a → a.checked = true

namespace Database

/-- A database with no rows. -/
def empty : Database where
  requests := ∅
  dispatches := ∅
  operations := ∅
  applications := ∅
  tombstones := ∅
  environmentRevisions := ∅
  environmentKeys := ∅
  attempts := ∅
  activeDeployments := ∅
  one_unfinished_operation := Table.uniqueIndex_empty _
  one_finishing_operation := Table.uniqueIndex_empty _
  one_active_dispatch := Table.uniqueIndex_empty _
  one_finishing_dispatch := Table.uniqueIndex_empty _
  one_unfinished_attempt := Table.uniqueIndex_empty _
  one_attempt_per_request := Table.uniqueIndex_empty _
  checked_attempts := fun id a h => absurd h (by simp)

/-- `get_operation` -/
def getOperation (db : Database) (operationId : OperationId) : Option Operation :=
  db.operations.lookup operationId

/-- The dispatch under an ID that is already known to be a UUID. -/
def getDispatch (db : Database) (operationId : OperationId) : Option OperationDispatch :=
  db.dispatches.lookup operationId

/-- The request under an ID that is already known to be a UUID. -/
def getRequest (db : Database) (requestId : OperationId) : Option IdempotencyRequest :=
  db.requests.lookup requestId

/-- One write of a row of `operations`. -/
def putOperation (db : Database) (operationId : OperationId) (operation : Operation) :
    Except Error Database :=
  if hu : Table.UniqueIndex Operation.unfinishedScope
      (db.operations.insert operationId operation) then
    if hf : Table.UniqueIndex Operation.finishingScope
        (db.operations.insert operationId operation) then
      .ok { db with
        operations := db.operations.insert operationId operation
        one_unfinished_operation := hu
        one_finishing_operation := hf }
    else .error (.integrity .oneFinishingOperationPerScope)
  else .error (.integrity .oneUnfinishedOperationPerScope)

/-- One write of a row of `operation_dispatches`. -/
def putDispatch (db : Database) (operationId : OperationId) (dispatch : OperationDispatch) :
    Except Error Database :=
  if ha : Table.UniqueIndex OperationDispatch.activeScope
      (db.dispatches.insert operationId dispatch) then
    if hf : Table.UniqueIndex OperationDispatch.finishingScope
        (db.dispatches.insert operationId dispatch) then
      .ok { db with
        dispatches := db.dispatches.insert operationId dispatch
        one_active_dispatch := ha
        one_finishing_dispatch := hf }
    else .error (.integrity .oneFinishingDispatchPerScope)
  else .error (.integrity .oneActiveDispatchPerScope)

variable {id : OperationId}

/-- The checks of a table hold after a write of a row that meets them. -/
theorem checked_insert {t : Table OperationId DeploymentAttempt} {a : DeploymentAttempt}
    (ha : a.checked = true) (ht : ∀ k b, t.lookup k = some b → b.checked = true) (k : OperationId)
    (b : DeploymentAttempt) (h : (t.insert id a).lookup k = some b) : b.checked = true := by
  rw [Table.lookup_insert_ite] at h
  split at h
  · rw [← Option.some.inj h]
    exact ha
  · exact ht k b h

/-- One write of a row of `deployment_attempts`. -/
def putAttempt (db : Database) (deploymentId : OperationId) (row : DeploymentAttempt) :
    Except Error Database :=
  if hc : row.checked = true then
    if hu : Table.UniqueIndex DeploymentAttempt.unfinishedApplication
        (db.attempts.insert deploymentId row) then
      if hr : Table.UniqueIndex DeploymentAttempt.request (db.attempts.insert deploymentId row) then
        .ok { db with
          attempts := db.attempts.insert deploymentId row
          one_unfinished_attempt := hu
          one_attempt_per_request := hr
          checked_attempts := checked_insert hc db.checked_attempts }
      else .error (.integrity .deploymentAttemptsIdempotencyRequestId)
    else .error (.integrity .oneUnfinishedDeploymentPerApplication)
  else .error (.integrity .deploymentAttemptsCheck)

/-- One write of a row of `idempotency_requests`. -/
def putRequest (db : Database) (requestId : OperationId) (request : IdempotencyRequest) :
    Database :=
  { db with requests := db.requests.insert requestId request }

/-! ## What the writes do -/

variable {db db' : Database} {o : Operation}

theorem putOperation_eq_ok : db.putOperation id o = .ok db' ↔
      ∃ (hu : Table.UniqueIndex Operation.unfinishedScope (db.operations.insert id o))
        (hf : Table.UniqueIndex Operation.finishingScope (db.operations.insert id o)),
        db' = { db with
          operations := db.operations.insert id o
          one_unfinished_operation := hu
          one_finishing_operation := hf } := by
  rw [putOperation, Checks.dite_ok_iff]
  exact exists_congr fun _ => Checks.dite_ok_iff.trans
    (exists_congr fun _ => Checks.ok_eq_ok_iff)

variable {d : OperationDispatch}

theorem putDispatch_eq_ok : db.putDispatch id d = .ok db' ↔
      ∃ (ha : Table.UniqueIndex OperationDispatch.activeScope (db.dispatches.insert id d))
        (hf : Table.UniqueIndex OperationDispatch.finishingScope (db.dispatches.insert id d)),
        db' = { db with
          dispatches := db.dispatches.insert id d
          one_active_dispatch := ha
          one_finishing_dispatch := hf } := by
  rw [putDispatch, Checks.dite_ok_iff]
  exact exists_congr fun _ => Checks.dite_ok_iff.trans
    (exists_congr fun _ => Checks.ok_eq_ok_iff)

theorem putAttempt_eq_ok {a : DeploymentAttempt} : db.putAttempt id a = .ok db' ↔
      ∃ (hc : a.checked = true)
        (hu : Table.UniqueIndex DeploymentAttempt.unfinishedApplication (db.attempts.insert id a))
        (hr : Table.UniqueIndex DeploymentAttempt.request (db.attempts.insert id a)),
        db' = { db with
          attempts := db.attempts.insert id a
          one_unfinished_attempt := hu
          one_attempt_per_request := hr
          checked_attempts := checked_insert hc db.checked_attempts } := by
  rw [putAttempt, Checks.dite_ok_iff]
  exact exists_congr fun _ => Checks.dite_ok_iff.trans (exists_congr fun _ =>
    Checks.dite_ok_iff.trans (exists_congr fun _ => Checks.ok_eq_ok_iff))

/-- Reading an operation after one was written. -/
theorem getOperation_put (h : db.putOperation id o = .ok db') (k : OperationId) :
    db'.getOperation k = if k = id then some o else db.getOperation k := by
  obtain ⟨-, -, rfl⟩ := putOperation_eq_ok.mp h
  exact Table.lookup_insert_ite _ _ _ _

/-- Reading a dispatch after one was written. -/
theorem getDispatch_put (h : db.putDispatch id d = .ok db') (k : OperationId) :
    db'.getDispatch k = if k = id then some d else db.getDispatch k := by
  obtain ⟨-, -, rfl⟩ := putDispatch_eq_ok.mp h
  exact Table.lookup_insert_ite _ _ _ _

/-- Reading a request after one was written. -/
theorem getRequest_put (db : Database) (id : OperationId) (r : IdempotencyRequest)
    (k : OperationId) :
    (db.putRequest id r).getRequest k = if k = id then some r else db.getRequest k :=
  Table.lookup_insert_ite _ _ _ _

@[simp] theorem getDispatch_putRequest (db : Database) (id : OperationId)
    (r : IdempotencyRequest) (k : OperationId) :
    (db.putRequest id r).getDispatch k = db.getDispatch k := rfl

@[simp] theorem getOperation_putRequest (db : Database) (id : OperationId)
    (r : IdempotencyRequest) (k : OperationId) :
    (db.putRequest id r).getOperation k = db.getOperation k := rfl

/-- Two databases agree outside `operations`. -/
structure SameBesideOperations (db db' : Database) : Prop where
  requests : db'.requests = db.requests
  dispatches : db'.dispatches = db.dispatches
  applications : db'.applications = db.applications
  tombstones : db'.tombstones = db.tombstones
  environmentRevisions : db'.environmentRevisions = db.environmentRevisions
  environmentKeys : db'.environmentKeys = db.environmentKeys
  attempts : db'.attempts = db.attempts
  activeDeployments : db'.activeDeployments = db.activeDeployments

/-- Two databases agree outside `operation_dispatches`. -/
structure SameBesideDispatches (db db' : Database) : Prop where
  requests : db'.requests = db.requests
  operations : db'.operations = db.operations
  applications : db'.applications = db.applications
  tombstones : db'.tombstones = db.tombstones
  environmentRevisions : db'.environmentRevisions = db.environmentRevisions
  environmentKeys : db'.environmentKeys = db.environmentKeys
  attempts : db'.attempts = db.attempts
  activeDeployments : db'.activeDeployments = db.activeDeployments

theorem same_putOperation (h : db.putOperation id o = .ok db') : SameBesideOperations db db' := by
  obtain ⟨-, -, rfl⟩ := putOperation_eq_ok.mp h
  exact ⟨rfl, rfl, rfl, rfl, rfl, rfl, rfl, rfl⟩

theorem same_putDispatch (h : db.putDispatch id d = .ok db') : SameBesideDispatches db db' := by
  obtain ⟨-, -, rfl⟩ := putDispatch_eq_ok.mp h
  exact ⟨rfl, rfl, rfl, rfl, rfl, rfl, rfl, rfl⟩

theorem SameBesideOperations.getDispatch (h : SameBesideOperations db db') (k : OperationId) :
    db'.getDispatch k = db.getDispatch k := by
  rw [Database.getDispatch, h.dispatches, Database.getDispatch]

theorem SameBesideOperations.getRequest (h : SameBesideOperations db db') (k : OperationId) :
    db'.getRequest k = db.getRequest k := by
  rw [Database.getRequest, h.requests, Database.getRequest]

theorem SameBesideDispatches.getOperation (h : SameBesideDispatches db db') (k : OperationId) :
    db'.getOperation k = db.getOperation k := by
  rw [Database.getOperation, h.operations, Database.getOperation]

theorem SameBesideDispatches.getRequest (h : SameBesideDispatches db db') (k : OperationId) :
    db'.getRequest k = db.getRequest k := by
  rw [Database.getRequest, h.requests, Database.getRequest]

/-- A write of `operations` that no other row conflicts with succeeds. -/
theorem exists_putOperation
    (hu : ∀ k o' s, k ≠ id → db.getOperation k = some o' → o.unfinishedScope = some s →
      o'.unfinishedScope ≠ some s)
    (hf : ∀ k o' s, k ≠ id → db.getOperation k = some o' → o.finishingScope = some s →
      o'.finishingScope ≠ some s) : ∃ db', db.putOperation id o = .ok db' :=
  ⟨_, putOperation_eq_ok.mpr
    ⟨db.one_unfinished_operation.insert hu, db.one_finishing_operation.insert hf, rfl⟩⟩

/-- A write of `operation_dispatches` that no other row conflicts with succeeds. -/
theorem exists_putDispatch
    (ha : ∀ k d' s, k ≠ id → db.getDispatch k = some d' → d.activeScope = some s →
      d'.activeScope ≠ some s)
    (hf : ∀ k d' s, k ≠ id → db.getDispatch k = some d' → d.finishingScope = some s →
      d'.finishingScope ≠ some s) : ∃ db', db.putDispatch id d = .ok db' :=
  ⟨_, putDispatch_eq_ok.mpr
    ⟨db.one_active_dispatch.insert ha, db.one_finishing_dispatch.insert hf, rfl⟩⟩

/-- A write that keeps the row's place in both indexes, or takes it out of them, succeeds. -/
theorem exists_putOperation_of_slot {o₀ : Operation} (h₀ : db.getOperation id = some o₀)
    (hu : ∀ s, o.unfinishedScope = some s → o₀.unfinishedScope = some s)
    (hf : ∀ s, o.finishingScope = some s → o₀.finishingScope = some s) :
    ∃ db', db.putOperation id o = .ok db' :=
  ⟨_, putOperation_eq_ok.mpr
    ⟨db.one_unfinished_operation.insert_of_slot h₀ hu,
      db.one_finishing_operation.insert_of_slot h₀ hf, rfl⟩⟩

/-- A write that keeps the row's place in both indexes, or takes it out of them, succeeds. -/
theorem exists_putDispatch_of_slot {d₀ : OperationDispatch} (h₀ : db.getDispatch id = some d₀)
    (ha : ∀ s, d.activeScope = some s → d₀.activeScope = some s)
    (hf : ∀ s, d.finishingScope = some s → d₀.finishingScope = some s) :
    ∃ db', db.putDispatch id d = .ok db' :=
  ⟨_, putDispatch_eq_ok.mpr
    ⟨db.one_active_dispatch.insert_of_slot h₀ ha,
      db.one_finishing_dispatch.insert_of_slot h₀ hf, rfl⟩⟩

end Database
end Controller
end OpenstackPlatform
