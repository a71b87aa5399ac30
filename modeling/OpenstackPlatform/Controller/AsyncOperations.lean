import OpenstackPlatform.Controller.JournalRun
import OpenstackPlatform.Library.Program
import Mathlib.Data.List.Sort

/-!
# The asynchronous executor

`async_operations.py`: an executor accepts work under the dispatch journal, runs it on a fixed
number of worker threads with a bounded number of slots, and on startup settles every dispatch that
a stop of the process left behind.

A `System` is the database and, while the process runs, the executor's memory.  The threads
interleave at transactions: a worker is idle or stands before one transaction of `_run`, which
`Stage` names.  An event is one transaction of one thread, one transaction that the submitted work
or a direct caller makes, or a stop, a close or a start of the process.

* `recoverStartup`: `_recover_startup`, a program that can be stopped between its transactions.
* `advance`: one transaction of `_run`.
* `Executor.submit`, `Executor.resubmitRecovery`: admission under the state lock.
* `step`: one event, with what the caller or the worker sees of it.
-/

namespace OpenstackPlatform
namespace Controller

open Library

/-! ## The startup pass -/

/-- `utc_now()` as a deadline.  The journal never reads it back; only its length is checked. -/
def deadlineNow : String := "1970-01-01T00:00:00Z"

/-- The operation the executor itself begins for a dispatch without one. -/
@[simps] def placeholder (id : OperationId) (d : OperationDispatch) (phase : String) : BeginOperation where
  operationId := id
  kind := d.kind
  scope := d.scope
  phase := phase
  deadlineAt := deadlineNow
  refs := .empty
  storageCheck := none

/-- `ORDER BY updated_at DESC, operation_id DESC` -/
def laterDispatch (a b : OperationId × OperationDispatch) : Prop :=
  b.2.updatedAt < a.2.updatedAt ∨ (b.2.updatedAt = a.2.updatedAt ∧ b.1 ≤ a.1)

instance : DecidableRel laterDispatch := fun a b =>
  inferInstanceAs (Decidable (b.2.updatedAt < a.2.updatedAt ∨ (b.2.updatedAt = a.2.updatedAt ∧
    b.1 ≤ a.1)))

/-- `list_operation_dispatches` -/
def listOperationDispatches (db : Database) : List (OperationId × OperationDispatch) :=
  (db.dispatches.entries.map fun e => (e.1, e.2)).insertionSort laterDispatch

/-- A dispatch the executor had accepted and not settled. -/
def DispatchStatus.interrupted : DispatchStatus → Bool
  | .pending | .running => true
  | _ => false

section Startup

variable (now : Timestamp)

/-- `set_operation_dispatch_status`, as a transaction of a program. -/
def settle (id : OperationId) (status : DispatchStatus) : Program Database Error Unit :=
  .commit (setOperationDispatchStatus id status now)

/-- The pass over a dispatch whose operation is finishing. -/
def recoverFinishing (id : OperationId) (d : OperationDispatch) (o : Operation) :
    Program Database Error Unit :=
  if d.status.interrupted || o.refs.finishingRetry.isNone then do
    .commit (schedule id now)
    settle now id .recoveryRequired
  else pure ()

/-- The pass over an interrupted dispatch that has no operation: a placeholder that failed, or, when
the scope already has an unfinished operation, none. -/
def recoverWithoutIntent (id : OperationId) (d : OperationDispatch) :
    Program Database Error Unit := do
  let begun ← Program.tryCatch
    (do .commit (beginOperation (placeholder id d "startup_interrupted")); pure true)
    fun
      | .unfinishedOperation _ _ _ => pure false
      | e => .throw e
  if begun then do
    .commit (markFailed id "not_required")
    settle now id .finished
  else settle now id .recoveryRequired

/-- The pass over one dispatch. -/
def recoverDispatch (id : OperationId) (d : OperationDispatch) : Program Database Error Unit := do
  let operation ← Program.read fun db : Database => db.getOperation id
  match operation with
  | some o =>
    if o.finishing && o.nonterminal then recoverFinishing now id d o
    else if !d.status.interrupted then pure ()
    else if !o.nonterminal then settle now id .finished
    else if o.status == .running then do
      .commit (markRecoveryRequired id none)
      settle now id .recoveryRequired
    else settle now id .recoveryRequired
  | none => if d.status.interrupted then recoverWithoutIntent now id d else pure ()

/-- The pass over a list of dispatches, in order. -/
def recoverAll : List (OperationId × OperationDispatch) → Program Database Error Unit
  | [] => pure ()
  | (id, d) :: rest => do
    recoverDispatch now id d
    recoverAll rest

/-- `_recover_startup` -/
def recoverStartup : Program Database Error Unit := do
  let dispatches ← Program.read listOperationDispatches
  recoverAll now dispatches

end Startup

/-! ## Workers -/

/-- Where a worker stands in `_run` with the item it took: before the transaction the stage is
named after.  The last two are in the `finally` block and carry the exception that leaves the
`except` block, if one does. -/
inductive Stage where
  /-- `set_operation_dispatch_status(..., "running")` -/
  | taken
  /-- inside `work(connection)` -/
  | working
  /-- `work` returned: begin the accepted placeholder if there is no operation -/
  | returned
  /-- `mark_succeeded` of the accepted placeholder -/
  | accepting
  /-- `except BaseException`: record the failure, beginning a placeholder if needed -/
  | failing
  /-- `mark_failed` of the rejected placeholder -/
  | rejecting
  /-- `finally`: schedule finishing work, or settle the dispatch -/
  | closing (escaping : Option Error)
  /-- `finally`, after `schedule`: settle the dispatch -/
  | settling (escaping : Option Error)
  deriving DecidableEq, Repr

/-- A worker thread. -/
inductive Worker where
  | idle
  | busy (id : OperationId) (stage : Stage)
  | dead
  deriving DecidableEq, Repr

/-- What a worker does after one transaction: it goes on, or it leaves the `finally` block, with
the exception that escapes the loop if there is one. -/
inductive Progress where
  | stage (stage : Stage)
  | leave (escaped : Option Error)
  deriving DecidableEq, Repr

/-- Commit, or roll back and go on elsewhere. -/
def attempt (db : Database) (x : Except Error Database) (ok : Progress)
    (failed : Error → Progress) : Database × Progress :=
  match x with
  | .ok db' => (db', ok)
  | .error e => (db, failed e)

/-- `dispatch_status` of the `finally` block, for an operation that is not finishing. -/
def closingStatus : Option Operation → DispatchStatus
  | some o => if o.status == .recoveryRequired then .recoveryRequired else .finished
  | none => .finished

/-- One transaction of `_run` on the item `id`.  The reads of the item's own rows before a
transaction belong to it: while a worker holds the item no other thread writes them. -/
def advance (now : Timestamp) (db : Database) (id : OperationId) : Stage → Database × Progress
  | .taken =>
    attempt db (setOperationDispatchStatus id .running now db) (.stage .working)
      fun _ => .stage .failing
  | .working => (db, .stage .working)
  | .returned =>
    match db.getOperation id, db.getDispatch id with
    | some _, _ => (db, .stage (.closing none))
    | none, some d =>
      attempt db (beginOperation (placeholder id d "accepted") db) (.stage .accepting)
        fun _ => .stage .failing
    | none, none => (db, .stage .failing)
  | .accepting =>
    attempt db (markSucceeded id "not_required" db) (.stage (.closing none))
      fun _ => .stage .failing
  | .failing =>
    match db.getOperation id, db.getDispatch id with
    | none, some d =>
      attempt db (beginOperation (placeholder id d "rejected") db) (.stage .rejecting) fun
        | .unfinishedOperation _ _ _ => .stage (.closing none)
        | e => .stage (.closing (some e))
    | none, none => (db, .stage (.closing (some (.value "AssertionError"))))
    | some o, _ =>
      if o.status == .running then
        attempt db
          (if o.finishing then recordFinishingFailure id db else markRecoveryRequired id none db)
          (.stage (.closing none)) fun e => .stage (.closing (some e))
      else (db, .stage (.closing none))
  | .rejecting =>
    attempt db (markFailed id "not_required" db) (.stage (.closing none)) fun
      | .unfinishedOperation _ _ _ => .stage (.closing none)
      | e => .stage (.closing (some e))
  | .closing escaping =>
    match db.getOperation id with
    | some o =>
      if o.finishing && o.nonterminal then
        attempt db (schedule id now db) (.stage (.settling escaping)) fun e => .leave (some e)
      else
        attempt db (setOperationDispatchStatus id (closingStatus (some o)) now db)
          (.leave escaping) fun e => .leave (some e)
    | none =>
      attempt db (setOperationDispatchStatus id (closingStatus none) now db) (.leave escaping)
        fun e => .leave (some e)
  | .settling escaping =>
    attempt db (setOperationDispatchStatus id .recoveryRequired now db) (.leave escaping)
      fun e => .leave (some e)

/-! ## The executor -/

/-- `threading.BoundedSemaphore` -/
structure Slots where
  capacity : Nat
  free : Nat
  deriving DecidableEq, Repr

/-- `acquire(blocking=False)` -/
def Slots.acquire (slots : Slots) : Option Slots :=
  if 0 < slots.free then some { slots with free := slots.free - 1 } else none

/-- `release()`, which refuses to go over the capacity. -/
def Slots.release (slots : Slots) : Option Slots :=
  if slots.free < slots.capacity then some { slots with free := slots.free + 1 } else none

/-- The memory of a running `AsyncOperationExecutor`. -/
structure Executor where
  slots : Slots
  queue : List OperationId
  workers : List Worker
  closed : Bool
  deriving DecidableEq, Repr

/-- The database, and the executor while the process runs. -/
structure System where
  db : Database
  executor : Option Executor

/-- What the thread that makes an event sees: it goes on, the call raises, a worker's loop ends
with an exception, or a slot is released that was not taken. -/
inductive Outcome where
  | done
  | raised (e : Error)
  | escaped (e : Error)
  | overReleased
  deriving DecidableEq, Repr

/-- `self._slots.release(); raise`, or a return that gives the slot back. -/
def Executor.giveBack (x : Executor) (outcome : Outcome) : Executor × Outcome :=
  match x.slots.release with
  | some slots => ({ x with slots := slots }, outcome)
  | none => (x, .overReleased)

/-- The critical section of `submit` and `resubmit_recovery`.  The transaction says whether its
item goes to the queue. -/
def Executor.enter (x : Executor) (db : Database) (id : OperationId)
    (transaction : Database → Except Error (Bool × Database)) : System × Outcome :=
  if x.closed then
    (⟨db, some x⟩, .raised (.dispatchQueueFull "operation executor is stopping"))
  else
    match x.slots.acquire with
    | none => (⟨db, some x⟩, .raised (.dispatchQueueFull "operation executor is at capacity"))
    | some slots =>
      let held := { x with slots := slots }
      match transaction db with
      | .ok (true, db') => (⟨db', some { held with queue := held.queue ++ [id] }⟩, .done)
      | .ok (false, db') =>
        let (x', outcome) := held.giveBack .done
        (⟨db', some x'⟩, outcome)
      | .error e =>
        let (x', outcome) := held.giveBack (.raised e)
        (⟨db, some x'⟩, outcome)

/-- `submit` -/
def Executor.submit (x : Executor) (id kind scope : String) (now : Timestamp) (db : Database) :
    System × Outcome :=
  x.enter db id (enqueueOperationDispatch id kind scope now)

/-- `resubmit_recovery` -/
def Executor.resubmitRecovery (x : Executor) (id kind scope : String) (automatic : Bool)
    (now : Timestamp) (db : Database) : System × Outcome :=
  x.enter db id fun db =>
    (requeueRecoveryDispatch id kind scope automatic now db).map fun db' => (true, db')

/-- The end of the `finally` block: the slot is released, and the worker goes back to the queue
unless an exception leaves the loop. -/
def Executor.leave (x : Executor) (n : Nat) (escaped : Option Error) : Executor × Outcome :=
  let settled (worker : Worker) : Executor := { x with workers := x.workers.set n worker }
  match x.slots.release, escaped with
  | some slots, none => ({ settled .idle with slots := slots }, .done)
  | some slots, some e => ({ settled .dead with slots := slots }, .escaped e)
  | none, _ => (settled .dead, .overReleased)

/-- A worker is inside the work of this item. -/
def Executor.working (x : Executor) (id : OperationId) : Bool :=
  x.workers.contains (.busy id .working)

/-! ## Events -/

/-- One event of the system. -/
inductive Event where
  /-- A transaction of the submitted work on its own operation, of a direct caller on an operation
  without a dispatch, or of the request handlers and services beside the journal. -/
  | call (call : Call)
  | submit (id kind scope : String) (now : Timestamp)
  | resubmitRecovery (id kind scope : String) (automatic : Bool) (now : Timestamp)
  | take (n : Nat)
  | workReturns (n : Nat)
  | workRaises (n : Nat)
  | advance (n : Nat) (now : Timestamp)
  | close
  | stop
  | startup (workers capacity : Nat) (now : Timestamp)
  /-- A startup pass that stops after its first `n` transactions. -/
  | startupStopped (n : Nat) (now : Timestamp)

/-- The operation a call is about is the item of a worker that is inside its work, or has no
dispatch. -/
def System.mayWrite (s : System) (id : OperationId) : Bool :=
  (s.db.getDispatch id).isNone ||
    match s.executor with
    | some x => x.working id
    | none => false

/-- The services write no retry record of their own: the refs of a checkpoint leave it out, or
carry over the one that the operation has. -/
def refsIssued (db : Database) (id : OperationId) (c : Checkpoint) : Bool :=
  c.refs.all fun refs => refs.finishingRetry.isNone ||
    (db.getOperation id).any fun o => refs.finishingRetry == o.refs.finishingRetry

/-- The calls that submitted work, direct callers and services make. -/
def System.callIssued (s : System) (call : Call) : Bool :=
  call.issued s.db &&
    match call with
    | .claimIdempotencyRequest _ _ | .putApplication _ _ | .retireSlug _ _ => true
    | .beginOperation r => s.mayWrite r.operationId && r.refs.finishingRetry.isNone
    | .renewOperationDeadline id _ | .markRecoveryRequired id _ | .recordFinishingFailure id
    | .markSucceeded id _ | .markFailed id _ | .markOperationFinishing id => s.mayWrite id
    | .checkpointOperation id c => s.mayWrite id && refsIssued s.db id c
    | .enqueueOperationDispatch _ _ _ _ | .requeueRecoveryDispatch _ _ _ _ _
    | .setOperationDispatchStatus _ _ _ | .schedule _ _ => false

/-- `_retry_loop` requeues what `finishing_retries.due` returned: accepted operations. -/
def retryIssued (db : Database) (id : OperationId) (automatic : Bool) : Bool :=
  !automatic ||
    match db.getOperation id with
    | some o => o.finishing
    | none => false

/-- The executor a start of the process builds. -/
def Executor.start (workers capacity : Nat) : Executor :=
  ⟨⟨capacity, capacity⟩, [], List.replicate workers .idle, false⟩

/-- What a worker's next transaction does to the system. -/
def System.advance (x : Executor) (db : Database) (n : Nat) (now : Timestamp)
    (id : OperationId) (stage : Stage) : System × Outcome :=
  match Controller.advance now db id stage with
  | (db', .stage stage') =>
    (⟨db', some { x with workers := x.workers.set n (.busy id stage') }⟩, .done)
  | (db', .leave escaped) =>
    let (x', outcome) := x.leave n escaped
    (⟨db', some x'⟩, outcome)

/-- One event, when it can happen. -/
def step (s : System) : Event → Option (System × Outcome)
  | .call call =>
    if s.callIssued call then
      match call.run s.db with
      | .ok db' => some ({ s with db := db' }, .done)
      | .error e => some (s, .raised e)
    else none
  | .submit id kind scope now => s.executor.map fun x => x.submit id kind scope now s.db
  | .resubmitRecovery id kind scope automatic now =>
    if retryIssued s.db id automatic then
      s.executor.map fun x => x.resubmitRecovery id kind scope automatic now s.db
    else none
  | .take n =>
    match s.executor with
    | some x =>
      match x.workers[n]?, x.queue with
      | some .idle, id :: queue =>
        some (⟨s.db, some
          { x with queue := queue, workers := x.workers.set n (.busy id .taken) }⟩, .done)
      | _, _ => none
    | none => none
  | .workReturns n =>
    match s.executor with
    | some x =>
      match x.workers[n]? with
      | some (.busy id .working) =>
        some (⟨s.db, some { x with workers := x.workers.set n (.busy id .returned) }⟩, .done)
      | _ => none
    | none => none
  | .workRaises n =>
    match s.executor with
    | some x =>
      match x.workers[n]? with
      | some (.busy id .working) =>
        some (⟨s.db, some { x with workers := x.workers.set n (.busy id .failing) }⟩, .done)
      | _ => none
    | none => none
  | .advance n now =>
    match s.executor with
    | some x =>
      match x.workers[n]? with
      | some (.busy id stage) =>
        if stage = .working then none else some (System.advance x s.db n now id stage)
      | _ => none
    | none => none
  | .close => s.executor.map fun x => (⟨s.db, some { x with closed := true }⟩, .done)
  | .stop => some (⟨s.db, none⟩, .done)
  | .startup workers capacity now =>
    if s.executor.isNone && 1 ≤ workers && workers ≤ capacity then
      let trace := (recoverStartup now).run s.db
      match trace.result with
      | .ok _ => some (⟨trace.final s.db, some (.start workers capacity)⟩, .done)
      | .error e => some (⟨trace.final s.db, none⟩, .raised e)
    else none
  | .startupStopped n now =>
    if s.executor.isNone then
      (((recoverStartup now).stops s.db)[n]?).map fun db => (⟨db, none⟩, .done)
    else none

/-- One step of a run: an event and what is seen of it. -/
def SystemStep (s : System) (l : Event × Outcome) (s' : System) : Prop :=
  step s l.1 = some (s', l.2)

/-- A controller that was never started, on an empty database. -/
def System.initial : System := ⟨Database.empty, none⟩

end Controller
end OpenstackPlatform
