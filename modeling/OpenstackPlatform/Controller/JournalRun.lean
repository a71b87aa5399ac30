import OpenstackPlatform.Controller.JournalSpec
import OpenstackPlatform.Library.Run
import Mathlib.Logic.Relation

/-!
# Runs of the journal

A run is a sequence of calls of the journal functions, in any order, from the empty database.
`Call.issued` says which calls the executor and the services make: an operation is begun for the
dispatch of the same ID while that dispatch is pending or running, or by a direct caller under an
ID no request uses; the executor writes a dispatch's status as its loop and its startup pass do;
only the foreground operation of a deployment, or of the enable of an application that should not
be running, is marked finishing; and an application's desired state is turned off only by an
operation that holds its scope, which an enable does not do.

`Change` says once what any such call can do to the database, and `Inv` is what every run keeps:

* `Inv.agree`: a dispatch and its operation have the same kind, scope and finishing flag, and the
  dispatch of a finishing operation is active.
* `Inv.orphan`, `Inv.direct`: a dispatch without an operation is not finishing; an operation
  without a dispatch has no request.
* `Inv.guarded`: next to a finishing operation no deployment is in the foreground, and an enable
  only of an application that should be running.
-/

namespace OpenstackPlatform
namespace Controller

open Library Validation

/-! ## Calls -/

/-- One transaction of the journal, or one write of the application tables beside it. -/
inductive Call where
  | claimIdempotencyRequest (requestId fingerprint : String)
  | enqueueOperationDispatch (operationId kind scope : String) (now : Timestamp)
  | requeueRecoveryDispatch (operationId kind scope : String) (automatic : Bool)
      (now : Timestamp)
  | setOperationDispatchStatus (operationId : OperationId) (status : DispatchStatus)
      (now : Timestamp)
  | beginOperation (r : BeginOperation)
  | renewOperationDeadline (operationId : OperationId) (deadlineAt : String)
  | checkpointOperation (operationId : OperationId) (c : Checkpoint)
  | markOperationFinishing (operationId : OperationId)
  | markRecoveryRequired (operationId : OperationId) (phase : Option String)
  | recordFinishingFailure (operationId : OperationId)
  | markSucceeded (operationId : OperationId) (cleanupState : String)
  | markFailed (operationId : OperationId) (cleanupState : String)
  | schedule (operationId : OperationId) (now : Timestamp)
  | putApplication (applicationId : String) (application : Application)
  | retireSlug (slug applicationId : String)

namespace Call

/-- The call, as a transaction. -/
def run : Call → Database → Except Error Database
  | claimIdempotencyRequest id fp, db => Controller.claimIdempotencyRequest id fp db
  | enqueueOperationDispatch id kind scope now, db =>
    (Controller.enqueueOperationDispatch id kind scope now db).map Prod.snd
  | requeueRecoveryDispatch id kind scope automatic now, db =>
    Controller.requeueRecoveryDispatch id kind scope automatic now db
  | setOperationDispatchStatus id status now, db =>
    Controller.setOperationDispatchStatus id status now db
  | beginOperation r, db => Controller.beginOperation r db
  | renewOperationDeadline id deadlineAt, db => Controller.renewOperationDeadline id deadlineAt db
  | checkpointOperation id c, db => Controller.checkpointOperation id c db
  | markOperationFinishing id, db => Controller.markOperationFinishing id db
  | markRecoveryRequired id phase, db => Controller.markRecoveryRequired id phase db
  | recordFinishingFailure id, db => Controller.recordFinishingFailure id db
  | markSucceeded id cleanup, db => Controller.markSucceeded id cleanup db
  | markFailed id cleanup, db => Controller.markFailed id cleanup db
  | schedule id now, db => Controller.schedule id now db
  | putApplication id a, db => .ok { db with applications := db.applications.insert id a }
  | retireSlug slug id, db => .ok { db with tombstones := db.tombstones.insert slug id }

/-- The executor finishes a dispatch whose operation is neither finishing nor waiting for
recovery. -/
def finishable (db : Database) (id : OperationId) : Bool :=
  match db.getOperation id with
  | some o => !(o.finishing && o.nonterminal) && o.status != .recoveryRequired
  | none => true

/-- The status writes of the executor: `_run` takes a pending dispatch and leaves it finished or
waiting for recovery, and the startup pass does the same to one it finds pending or running. -/
def statusIssued (db : Database) (id : OperationId) (d : OperationDispatch) :
    DispatchStatus → Bool
  | .pending => false
  | .running => d.status == .pending
  | .finished => (d.status == .pending || d.status == .running) && finishable db id
  | .recoveryRequired =>
    d.status == .pending || d.status == .running ||
      match db.getOperation id with
      | some o => o.finishing && o.nonterminal
      | none => false

/-- Who begins an operation: the work of the dispatch with the same ID, kind and scope, or a
direct caller whose ID no request uses. -/
def beginIssued (db : Database) (r : Controller.BeginOperation) : Bool :=
  match db.getDispatch r.operationId with
  | some d =>
    (d.status == .pending || d.status == .running) && d.kind == r.kind && d.scope == r.scope
  | none => (db.getRequest r.operationId).isNone

/-- The application of a scope exists, is not retired and should not be running. -/
def stoppedScope (db : Database) (scope : String) : Bool :=
  scope == "app-" ++ removePrefix "app-" scope &&
    notTombstoned db (removePrefix "app-" scope) &&
    match db.applications.lookup (removePrefix "app-" scope) with
    | some a => !a.desiredRunning
    | none => false

/-- The dispatch under an ID is not finished, or there is none. -/
def undelivered (db : Database) (id : OperationId) : Bool :=
  match db.getDispatch id with
  | some d => d.status.active
  | none => true

/-- What is marked finishing: the foreground operation of a deployment, or of the enable of an
application that should not be running, by work whose dispatch is not finished. -/
def finishingIssued (db : Database) (id : OperationId) : Bool :=
  match db.getOperation id with
  | some o =>
    o.nonterminal && !o.finishing && undelivered db id &&
      (o.kind == "app.deploy" || (o.kind == "app.enable" && stoppedScope db o.scope))
  | none => false

/-- An enable is in the foreground of the scope. -/
def enabling (db : Database) (scope : String) : Bool :=
  match getUnfinishedOperation db scope with
  | some (_, o) => o.kind == "app.enable"
  | none => false

/-- The calls that the executor and the services make. -/
def issued (db : Database) : Call → Bool
  | claimIdempotencyRequest id _ => (db.getOperation id).isNone || (db.getRequest id).isSome
  | setOperationDispatchStatus id status _ =>
    match db.getDispatch id with
    | some d => statusIssued db id d status
    | none => false
  | beginOperation r => beginIssued db r
  | markOperationFinishing id => finishingIssued db id
  | putApplication id a => a.desiredRunning || !enabling db ("app-" ++ id)
  | retireSlug slug _ => (db.tombstones.lookup slug).isNone
  | _ => true

end Call

/-- One step of a run: an issued call, which an exception leaves without effect. -/
def JournalStep (db : Database) (call : Call) (db' : Database) : Prop :=
  call.issued db = true ∧
    (call.run db = .ok db' ∨ ∃ e, call.run db = .error e ∧ db' = db)

/-- The database after a call: an exception rolls the transaction back. -/
def Call.perform (call : Call) (db : Database) : Database :=
  match call.run db with
  | .ok db' => db'
  | .error _ => db

/-- The database after a sequence of calls. -/
def performAll (calls : List Call) (db : Database) : Database :=
  calls.foldl (fun db call => call.perform db) db

/-- Every call of the sequence is issued where it is made, and meets a condition there. -/
def issuedAll (ok : Database → Call → Bool) : List Call → Database → Bool
  | [], _ => true
  | call :: calls, db => call.issued db && ok db call && issuedAll ok calls (call.perform db)

theorem JournalStep.perform {db : Database} {call : Call} (h : call.issued db = true) :
    JournalStep db call (call.perform db) := by
  refine ⟨h, ?_⟩
  rw [Call.perform]
  cases hrun : call.run db with
  | ok db' => exact .inl rfl
  | error e => exact .inr ⟨e, rfl, rfl⟩

/-- A sequence of issued calls that meet a condition is a run whose steps meet it. -/
theorem run_performAll {ok : Database → Call → Bool} {calls : List Call} {db : Database}
    (h : issuedAll ok calls db = true) :
    Run (restrict JournalStep fun db call => ok db call = true) db calls
      (performAll calls db) := by
  induction calls generalizing db with
  | nil => exact .nil
  | cons call calls ih =>
    obtain ⟨hstep, hrest⟩ := Bool.and_eq_true_iff.mp h
    obtain ⟨hissued, hok⟩ := Bool.and_eq_true_iff.mp hstep
    exact (Run.snoc .nil ⟨JournalStep.perform hissued, hok⟩).append (ih hrest)

/-! ## What one call can do -/

/-- A write that an issued call makes, with what is known when it makes it.  The index is the
operation it begins, if it begins one. -/
inductive Change (db : Database) : Option BeginOperation → Database → Prop where
  | request {id fp : String} (hrequest : db.getRequest id = none)
      (hop : db.getOperation id = none) : Change db none (db.putRequest id ⟨fp, none, none⟩)
  | enqueue {id kind scope : String} {now : Timestamp} {request request' : IdempotencyRequest}
      {db₁ : Database} (hid : isUuid id = true) (hkind : isOperationToken kind = true)
      (hscope : isOperationToken scope = true) (hdispatch : db.getDispatch id = none)
      (hrequest : db.getRequest id = some request)
      (hput : db.putDispatch id ⟨kind, scope, .pending, now, false⟩ = .ok db₁) :
      Change db none (db₁.putRequest id request')
  | dispatch {id : OperationId} {d : OperationDispatch} {status : DispatchStatus}
      {now : Timestamp} {db' : Database} (hd : db.getDispatch id = some d)
      (hactive : d.status.active = true)
      (hended : status = .finished → Call.finishable db id = true)
      (hput : db.putDispatch id { d with status := status, updatedAt := now } = .ok db') :
      Change db none db'
  | begin {r : BeginOperation} {db' : Database} (hissued : Call.beginIssued db r = true)
      (hadmission : checkFinishingAdmission db r.scope r.kind = .ok ())
      (hnone : getUnfinishedOperation db r.scope = none)
      (hfresh : db.getOperation r.operationId = none)
      (hput : db.putOperation r.operationId r.row = .ok db') : Change db (some r) db'
  | amend {id : OperationId} {o o' : Operation} {db' : Database}
      (ho : db.getOperation id = some o) (hput : db.putOperation id o' = .ok db')
      (hamends : Amends o o') : Change db none db'
  | finishing {id : OperationId} {o : Operation} {db₁ db' : Database}
      (hissued : Call.finishingIssued db id = true) (ho : db.getOperation id = some o)
      (hput : db.putOperation id { o with finishing := true, cleanupState := "pending" } =
        .ok db₁)
      (hdispatch : (∃ d, db.getDispatch id = some d ∧
          db₁.putDispatch id { d with finishing := true } = .ok db') ∨
        (db.getDispatch id = none ∧ db' = db₁)) : Change db none db'
  | application {id : String} {a : Application}
      (hissued : a.desiredRunning = true ∨ Call.enabling db ("app-" ++ id) = false) :
      Change db none { db with applications := db.applications.insert id a }
  | retire {slug id : String} (hnew : db.tombstones.lookup slug = none) :
      Change db none { db with tombstones := db.tombstones.insert slug id }

/-! ## The invariant -/

/-- A scope has a finishing operation. -/
def FinishingOperation (db : Database) (scope : String) : Prop :=
  ∃ id o, db.getOperation id = some o ∧ o.finishingScope = some scope

/-- A scope has an active dispatch that is marked finishing. -/
def FinishingDispatch (db : Database) (scope : String) : Prop :=
  ∃ id d, db.getDispatch id = some d ∧ d.finishingScope = some scope

/-- The foreground operation `o` may stand next to what makes its scope busy: it is not a
deployment, and if it is an enable then its application should be running. -/
structure Guards (db : Database) (busy : String → Prop) (o : Operation) : Prop where
  deploy : o.kind = "app.deploy" → ¬ busy o.scope
  enable : o.kind = "app.enable" → busy o.scope → ∀ id a, o.scope = "app-" ++ id →
    db.applications.lookup id = some a → notTombstoned db id = true → a.desiredRunning = true

/-- Every foreground operation may stand next to what makes its scope busy. -/
def Guarded (db : Database) (busy : String → Prop) : Prop :=
  ∀ id o, db.getOperation id = some o → o.unfinishedScope = some o.scope → Guards db busy o

/-- What every run of the journal keeps. -/
structure Inv (db : Database) : Prop where
  agree : ∀ id d o, db.getDispatch id = some d → db.getOperation id = some o →
    d.kind = o.kind ∧ d.scope = o.scope ∧ d.finishing = o.finishing ∧
      (o.nonterminal = true → o.finishing = true → d.status.active = true)
  orphan : ∀ id d, db.getDispatch id = some d → db.getOperation id = none → d.finishing = false
  direct : ∀ id o, db.getOperation id = some o → db.getDispatch id = none →
    db.getRequest id = none
  valid : ∀ id d, db.getDispatch id = some d →
    isUuid id = true ∧ isOperationToken d.kind = true ∧ isOperationToken d.scope = true
  guarded : Guarded db (FinishingOperation db)

theorem inv_empty : Inv Database.empty where
  agree id d o h := by simp [Database.empty, Database.getDispatch] at h
  orphan id d h := by simp [Database.empty, Database.getDispatch] at h
  direct id o h := by simp [Database.empty, Database.getOperation] at h
  valid id d h := by simp [Database.empty, Database.getDispatch] at h
  guarded id o h := by simp [Database.empty, Database.getOperation] at h

namespace Operation

/-- A foreground operation is in the index under its own scope. -/
theorem unfinishedScope_self {o : Operation} :
    o.unfinishedScope = some o.scope ↔ o.nonterminal = true ∧ o.finishing = false := by
  rw [unfinishedScope_eq_some]
  tauto

end Operation

/-- `Guarded` moves to a later database whose foreground operations were there before, in scopes
that were busy before if they are busy now, when the application tables did not change. -/
theorem Guarded.transfer {db db' : Database} {busy busy' : String → Prop} (h : Guarded db busy)
    (happ : db'.applications = db.applications) (htomb : db'.tombstones = db.tombstones)
    (hops : ∀ id o', db'.getOperation id = some o' → o'.unfinishedScope = some o'.scope →
      (busy' o'.scope → busy o'.scope) ∧
        ∃ k o, db.getOperation k = some o ∧ o.unfinishedScope = some o.scope ∧
          o.kind = o'.kind ∧ o.scope = o'.scope) : Guarded db' busy' := by
  intro id o' ho' hs'
  obtain ⟨hbusy, k, o, ho, hs, hkind, hscope⟩ := hops id o' ho' hs'
  have hold := h k o ho hs
  refine ⟨?_, ?_⟩
  · intro hk hb
    exact hold.deploy (hkind.trans hk) (hscope ▸ hbusy hb)
  · intro hk hb a row hscope' hrow hlive
    rw [happ] at hrow
    rw [notTombstoned, htomb] at hlive
    exact hold.enable (hkind.trans hk) (hscope ▸ hbusy hb) a row (hscope.trans hscope') hrow hlive

namespace Change

variable {db db' : Database} {begun : Option BeginOperation}

variable {id : OperationId} {o : Operation}

/-- An amended row in the foreground was in the foreground before. -/
theorem foreground_of_amend {o' : Operation} (ho : db.getOperation id = some o)
    (hamends : Amends o o') (hput : db.putOperation id o' = .ok db') {k : OperationId}
    {p' : Operation} (hp : db'.getOperation k = some p') (hs : p'.unfinishedScope = some p'.scope) :
    ∃ p, db.getOperation k = some p ∧ p.unfinishedScope = some p.scope ∧ p.kind = p'.kind ∧
      p.scope = p'.scope := by
  rw [Database.getOperation_put hput] at hp
  split at hp
  · rename_i hk
    cases hp
    refine ⟨o, hk ▸ ho, ?_, hamends.kind.symm, hamends.scope.symm⟩
    rw [hamends.unfinishedScope _ hs, hamends.scope]
  · exact ⟨p', hp, hs, rfl, rfl⟩

variable {s : String}

/-- An amendment makes no scope busy. -/
theorem finishingOperation_of_amend {o' : Operation} (ho : db.getOperation id = some o)
    (hamends : Amends o o') (hput : db.putOperation id o' = .ok db')
    (h : FinishingOperation db' s) : FinishingOperation db s := by
  obtain ⟨k, p, hp, hs⟩ := h
  rw [Database.getOperation_put hput] at hp
  split at hp
  · cases hp
    exact ⟨id, o, ho, hamends.finishingScope s hs⟩
  · exact ⟨k, p, hp, hs⟩

/-- A new foreground operation makes no scope busy. -/
theorem finishingOperation_of_begin {r : BeginOperation}
    (hput : db.putOperation r.operationId r.row = .ok db') (h : FinishingOperation db' s) :
    FinishingOperation db s := by
  obtain ⟨k, p, hp, hs⟩ := h
  rw [Database.getOperation_put hput] at hp
  split at hp
  · cases hp
    exact absurd (Operation.finishingScope_eq_some.mp hs).2.1 Bool.false_ne_true
  · exact ⟨k, p, hp, hs⟩

/-- A status write of an active dispatch makes no scope busy. -/
theorem finishingDispatch_of_dispatch {d d' : OperationDispatch}
    (hput : db.putDispatch id d' = .ok db') (hd : db.getDispatch id = some d)
    (hactive : d.status.active = true) (hscope : d'.scope = d.scope)
    (hfin : d'.finishing = d.finishing) (h : FinishingDispatch db' s) : FinishingDispatch db s := by
  obtain ⟨k, e, he, hs⟩ := h
  rw [Database.getDispatch_put hput] at he
  split at he
  · cases he
    rw [OperationDispatch.finishingScope_eq_some] at hs
    refine ⟨id, d, hd, OperationDispatch.finishingScope_eq_some.mpr ?_⟩
    exact ⟨hactive, hfin ▸ hs.2.1, hscope ▸ hs.2.2⟩
  · exact ⟨k, e, he, hs⟩

/-- Next to a finishing operation, what begins is admitted by it. -/
theorem guards_of_admission {r : BeginOperation}
    (hadmission : checkFinishingAdmission db r.scope r.kind = .ok ()) {busy : String → Prop}
    (hbusy : busy r.scope → r.kind = "app.deploy" ∨ r.kind = "app.enable" →
      FinishingOperation db r.scope) : Guards db busy r.row := by
  have hadmits : ∀ id o, db.getOperation id = some o → o.finishingScope = some r.scope →
      admits db r.scope r.kind o = true := by
    intro id o ho hs
    rw [checkFinishingAdmission_of_finishing ho hs] at hadmission
    exact require_eq_ok.mp hadmission
  refine ⟨?_, ?_⟩
  · intro hkind hb
    obtain ⟨id, o, ho, hs⟩ := hbusy hb (.inl hkind)
    have h := hadmits id o ho hs
    rw [show r.kind = "app.deploy" from hkind, admits_deploy] at h
    exact Bool.false_ne_true h
  · intro hkind hb a row hscope hrow hlive
    obtain ⟨id, o, ho, hs⟩ := hbusy hb (.inr hkind)
    have h := hadmits id o ho hs
    rw [show r.kind = "app.enable" from hkind, show r.scope = "app-" ++ a from hscope] at h
    exact admits_enable hrow hlive h

/-- What is marked finishing was in the foreground. -/
theorem foreground_of_finishingIssued (hissued : Call.finishingIssued db id = true)
    (ho : db.getOperation id = some o) :
    o.nonterminal = true ∧ o.finishing = false ∧ Call.undelivered db id = true ∧
      (o.kind = "app.deploy" ∨
        (o.kind = "app.enable" ∧ Call.stoppedScope db o.scope = true)) := by
  rw [Call.finishingIssued, ho] at hissued
  simp only [Bool.and_eq_true, Bool.or_eq_true, Bool.not_eq_true', beq_iff_eq] at hissued
  obtain ⟨⟨⟨hn, hf⟩, hactive⟩, hkind⟩ := hissued
  exact ⟨hn, hf, hactive, hkind⟩

/-- Once its foreground operation is marked finishing, a scope has none. -/
theorem no_foreground_of_finishing {o' : Operation} {db₁ : Database}
    (ho : db.getOperation id = some o) (hs : o.unfinishedScope = some o.scope)
    (hfin : o'.finishing = true) (hput : db.putOperation id o' = .ok db₁)
    (hops : ∀ k, db'.getOperation k = db₁.getOperation k) {k : OperationId} {p : Operation}
    (hp : db'.getOperation k = some p) : p.unfinishedScope ≠ some o.scope := by
  intro hps
  rw [hops, Database.getOperation_put hput] at hp
  split at hp
  · cases hp
    rw [Operation.unfinishedScope_eq_some, hfin] at hps
    exact Bool.false_ne_true hps.2.1.symm
  · rename_i hk
    exact hk (db.one_unfinished_operation.key_eq hp ho hps hs)

/-- Marking an operation finishing writes no other operation. -/
theorem getOperation_of_finishing {db₁ : Database} (h : (∃ d, db.getDispatch id = some d ∧
        db₁.putDispatch id { d with finishing := true } = .ok db') ∨
      (db.getDispatch id = none ∧ db' = db₁)) (k : OperationId) :
    db'.getOperation k = db₁.getOperation k := by
  obtain ⟨d, -, hput⟩ | ⟨-, rfl⟩ := h
  · exact (Database.same_putDispatch hput).getOperation k
  · rfl

/-- A foreground operation of a database stays where it is while a change marks no operation of
its scope, and what a change begins is guarded by admission. -/
theorem guarded {busy busy' : String → Prop} (hc : Change db begun db') (h : Guarded db busy)
    (hbusy : ∀ s, busy' s → busy s ∨
      ∀ k p, db'.getOperation k = some p → p.unfinishedScope ≠ some s)
    (hbegin : ∀ r, begun = some r → checkFinishingAdmission db r.scope r.kind = .ok () →
      Guards db busy r.row) :
    Guarded db' busy' := by
  have hkept : ∀ id o', db'.getOperation id = some o' → o'.unfinishedScope = some o'.scope →
      busy' o'.scope → busy o'.scope := by
    intro id o' ho' hs' hb
    exact (hbusy _ hb).resolve_right fun hno => hno id o' ho' hs'
  cases hc with
  | request hrequest hop =>
    exact h.transfer rfl rfl fun id o' ho' hs' => ⟨hkept id o' ho' hs', id, o', ho', hs', rfl, rfl⟩
  | enqueue hid hkind hscope hdispatch hrequest hput =>
    have hsame := Database.same_putDispatch hput
    refine h.transfer hsame.applications hsame.tombstones fun id o' ho' hs' =>
      ⟨hkept id o' ho' hs', id, o', ?_, hs', rfl, rfl⟩
    exact (hsame.getOperation id).symm.trans ho'
  | dispatch hd hactive hended hput =>
    have hsame := Database.same_putDispatch hput
    refine h.transfer hsame.applications hsame.tombstones fun id o' ho' hs' =>
      ⟨hkept id o' ho' hs', id, o', ?_, hs', rfl, rfl⟩
    exact (hsame.getOperation id).symm.trans ho'
  | @begin r _ hissued hadmission hnone hfresh hput =>
    have hsame := Database.same_putOperation hput
    intro id o' ho' hs'
    have hb := hkept id o' ho' hs'
    rw [Database.getOperation_put hput] at ho'
    have hold : Guards db busy o' := by
      split at ho'
      · cases ho'
        exact hbegin r rfl hadmission
      · exact h id o' ho' hs'
    refine ⟨fun hk hb' => hold.deploy hk (hb hb'), ?_⟩
    intro hk hb' a row hscope hrow hlive
    rw [hsame.applications] at hrow
    rw [notTombstoned, hsame.tombstones] at hlive
    exact hold.enable hk (hb hb') a row hscope hrow hlive
  | amend ho hput hamends =>
    have hsame := Database.same_putOperation hput
    refine h.transfer hsame.applications hsame.tombstones fun id o' ho' hs' =>
      ⟨hkept id o' ho' hs', id, ?_⟩
    exact foreground_of_amend ho hamends hput ho' hs'
  | @finishing id o db₁ _ hissued ho hput hdispatch =>
    have hops := getOperation_of_finishing hdispatch
    have happ : db'.applications = db.applications ∧ db'.tombstones = db.tombstones := by
      have hsame := Database.same_putOperation hput
      obtain ⟨d, -, hput'⟩ | ⟨-, rfl⟩ := hdispatch
      · have hsame' := Database.same_putDispatch hput'
        exact ⟨hsame'.applications.trans hsame.applications,
          hsame'.tombstones.trans hsame.tombstones⟩
      · exact ⟨hsame.applications, hsame.tombstones⟩
    refine h.transfer happ.1 happ.2 fun k o' ho' hs' => ⟨hkept k o' ho' hs', k, o', ?_, hs', rfl, rfl⟩
    rw [hops, Database.getOperation_put hput] at ho'
    split at ho'
    · cases ho'
      exact absurd (Operation.unfinishedScope_self.mp hs').2 (by simp)
    · exact ho'
  | @application id a hissued =>
    intro k o' ho' hs'
    have hold := h k o' ho' hs'
    have hb := hkept k o' ho' hs'
    refine ⟨fun hk hb' => hold.deploy hk (hb hb'), ?_⟩
    intro hk hb' a' row hscope hrow hlive
    rw [Table.lookup_insert_ite] at hrow
    split at hrow
    · rename_i hid
      cases hrow
      refine hissued.resolve_right fun hno => ?_
      subst hid
      have hfound : getUnfinishedOperation db ("app-" ++ a') = some (k, o') := by
        cases hget : getUnfinishedOperation db ("app-" ++ a') with
        | none =>
          exact absurd (hscope ▸ hs') (getUnfinishedOperation_eq_none.mp hget k o' ho')
        | some found =>
          obtain ⟨k', p⟩ := found
          obtain ⟨hp, hps⟩ := getUnfinishedOperation_eq_some hget
          obtain rfl := db.one_unfinished_operation.key_eq hp ho' hps (hscope ▸ hs')
          rw [Option.some.inj (hp.symm.trans ho')]
      rw [Call.enabling, hfound] at hno
      exact absurd hk (by simpa using hno)
    · exact hold.enable hk (hb hb') a' row hscope hrow hlive
  | @retire slug id hnew =>
    intro k o' ho' hs'
    have hold := h k o' ho' hs'
    have hb := hkept k o' ho' hs'
    refine ⟨fun hk hb' => hold.deploy hk (hb hb'), ?_⟩
    intro hk hb' a row hscope hrow hlive
    refine hold.enable hk (hb hb') a row hscope hrow ?_
    rw [notTombstoned, Option.isNone_iff_eq_none, Table.find?_eq_none] at hlive ⊢
    intro slug' id' hlookup
    refine hlive slug' id' ?_
    rw [Table.lookup_insert_ite]
    split
    · rename_i hs
      rw [hs, hnew] at hlookup
      cases hlookup
    · exact hlookup

/-- An operation that is finishing after a change was so before, or its scope has no foreground
operation left. -/
theorem finishingOperation (hc : Change db begun db') (h : FinishingOperation db' s) :
    FinishingOperation db s ∨
      ∀ k p, db'.getOperation k = some p → p.unfinishedScope ≠ some s := by
  cases hc with
  | request hrequest hop => exact .inl h
  | enqueue hid hkind hscope hdispatch hrequest hput =>
    obtain ⟨k, p, hp, hs⟩ := h
    exact .inl ⟨k, p, ((Database.same_putDispatch hput).getOperation k).symm.trans hp, hs⟩
  | dispatch hd hactive hended hput =>
    obtain ⟨k, p, hp, hs⟩ := h
    exact .inl ⟨k, p, ((Database.same_putDispatch hput).getOperation k).symm.trans hp, hs⟩
  | begin hissued hadmission hnone hfresh hput => exact .inl (finishingOperation_of_begin hput h)
  | amend ho hput hamends => exact .inl (finishingOperation_of_amend ho hamends hput h)
  | @finishing id o db₁ _ hissued ho hput hdispatch =>
    have hops := getOperation_of_finishing hdispatch
    obtain ⟨hn, hf, -⟩ := foreground_of_finishingIssued hissued ho
    obtain ⟨k, p, hp, hs⟩ := h
    rw [hops, Database.getOperation_put hput] at hp
    split at hp
    · cases hp
      obtain ⟨-, -, rfl⟩ := Operation.finishingScope_eq_some.mp hs
      refine .inr fun k p hp => ?_
      exact no_foreground_of_finishing ho (Operation.unfinishedScope_self.mpr ⟨hn, hf⟩) rfl hput
        hops hp
    · exact .inl ⟨k, p, hp, hs⟩
  | application hissued => exact .inl h
  | retire hnew => exact .inl h

/-- A dispatch that is active and finishing after a change was so before, or its scope has no
foreground operation left. -/
theorem finishingDispatch (hc : Change db begun db') (hinv : Inv db) (h : FinishingDispatch db' s) :
    FinishingDispatch db s ∨
      ∀ k p, db'.getOperation k = some p → p.unfinishedScope ≠ some s := by
  cases hc with
  | request hrequest hop => exact .inl h
  | enqueue hid hkind hscope hdispatch hrequest hput =>
    obtain ⟨k, d, hd, hs⟩ := h
    rw [Database.getDispatch_putRequest, Database.getDispatch_put hput] at hd
    split at hd
    · cases hd
      exact absurd (OperationDispatch.finishingScope_eq_some.mp hs).2.1 Bool.false_ne_true
    · exact .inl ⟨k, d, hd, hs⟩
  | dispatch hd hactive hended hput =>
    exact .inl (finishingDispatch_of_dispatch hput hd hactive rfl rfl h)
  | begin hissued hadmission hnone hfresh hput =>
    obtain ⟨k, d, hd, hs⟩ := h
    exact .inl ⟨k, d, ((Database.same_putOperation hput).getDispatch k).symm.trans hd, hs⟩
  | amend ho hput hamends =>
    obtain ⟨k, d, hd, hs⟩ := h
    exact .inl ⟨k, d, ((Database.same_putOperation hput).getDispatch k).symm.trans hd, hs⟩
  | @finishing id o db₁ _ hissued ho hput hdispatch =>
    have hops := getOperation_of_finishing hdispatch
    obtain ⟨hn, hf, -⟩ := foreground_of_finishingIssued hissued ho
    have hsame := Database.same_putOperation hput
    obtain ⟨k, e, he, hs⟩ := h
    obtain ⟨d, hd, hput'⟩ | ⟨-, rfl⟩ := hdispatch
    · rw [Database.getDispatch_put hput'] at he
      split at he
      · cases he
        obtain ⟨-, -, rfl⟩ := OperationDispatch.finishingScope_eq_some.mp hs
        refine .inr fun k p hp => ?_
        rw [show ({ d with finishing := true } : OperationDispatch).scope = o.scope from
          (hinv.agree id d o hd ho).2.1]
        exact no_foreground_of_finishing ho (Operation.unfinishedScope_self.mpr ⟨hn, hf⟩) rfl hput
          hops hp
      · exact .inl ⟨k, e, (hsame.getDispatch k).symm.trans he, hs⟩
    · exact .inl ⟨k, e, (hsame.getDispatch k).symm.trans he, hs⟩
  | application hissued => exact .inl h
  | retire hnew => exact .inl h

/-- A change keeps the agreement of dispatches and operations. -/
theorem agree (hc : Change db begun db') (hinv : Inv db) (id : OperationId) (d : OperationDispatch)
    (o : Operation) (hd : db'.getDispatch id = some d) (ho : db'.getOperation id = some o) :
    d.kind = o.kind ∧ d.scope = o.scope ∧ d.finishing = o.finishing ∧
      (o.nonterminal = true → o.finishing = true → d.status.active = true) := by
  cases hc with
  | request hrequest hop => exact hinv.agree id d o hd ho
  | @enqueue id' _ _ _ _ _ db₁ hid hkind hscope hdispatch hrequest hput =>
    have ho' : db.getOperation id = some o :=
      ((Database.same_putDispatch hput).getOperation id).symm.trans ho
    rw [Database.getDispatch_putRequest, Database.getDispatch_put hput] at hd
    split at hd
    · rename_i hid
      subst hid
      rw [hinv.direct id o ho' hdispatch] at hrequest
      cases hrequest
    · exact hinv.agree id d o hd ho'
  | @dispatch id' d₀ status _ _ hd₀ hactive hended hput =>
    have ho' := ((Database.same_putDispatch hput).getOperation id).symm.trans ho
    rw [Database.getDispatch_put hput] at hd
    split at hd
    · rename_i hid
      subst hid
      cases hd
      obtain ⟨hkind, hscope, hfin, -⟩ := hinv.agree id d₀ o hd₀ ho'
      refine ⟨hkind, hscope, hfin, fun hn hf => ?_⟩
      cases status with
      | finished =>
        have hend := hended rfl
        simp [Call.finishable, ho', hn, hf] at hend
      | _ => rfl
    · exact hinv.agree id d o hd ho'
  | @begin r _ hissued hadmission hnone hfresh hput =>
    have hd' := ((Database.same_putOperation hput).getDispatch id).symm.trans hd
    rw [Database.getOperation_put hput] at ho
    split at ho
    · rename_i hid
      subst hid
      cases ho
      rw [Call.beginIssued, hd'] at hissued
      simp only [Bool.and_eq_true, Bool.or_eq_true, beq_iff_eq] at hissued
      obtain ⟨⟨hstatus, hkind⟩, hscope⟩ := hissued
      refine ⟨hkind, hscope, hinv.orphan _ d hd' hfresh, fun _ hf => ?_⟩
      cases hf
    · exact hinv.agree id d o hd' ho
  | @amend id' o₀ o' _ ho₀ hput hamends =>
    have hd' := ((Database.same_putOperation hput).getDispatch id).symm.trans hd
    rw [Database.getOperation_put hput] at ho
    split at ho
    · rename_i hid
      subst hid
      cases ho
      obtain ⟨hkind, hscope, hfin, hactive⟩ := hinv.agree id d o₀ hd' ho₀
      exact ⟨hkind.trans hamends.kind.symm, hscope.trans hamends.scope.symm,
        hfin.trans hamends.finishing.symm,
        fun _ hf => hactive hamends.nonterminal (hamends.finishing ▸ hf)⟩
    · exact hinv.agree id d o hd' ho
  | @finishing id' o₀ db₁ _ hissued ho₀ hput hdispatch =>
    rw [getOperation_of_finishing hdispatch, Database.getOperation_put hput] at ho
    have hsame := Database.same_putOperation hput
    obtain ⟨d₀, hd₀, hput'⟩ | ⟨hnone, rfl⟩ := hdispatch
    · rw [Database.getDispatch_put hput', hsame.getDispatch] at hd
      by_cases hid : id = id'
      · rw [if_pos hid] at hd ho
        subst hid
        cases hd
        cases ho
        obtain ⟨hkind, hscope, -, -⟩ := hinv.agree id d₀ o₀ hd₀ ho₀
        have hactive := (foreground_of_finishingIssued hissued ho₀).2.2.1
        rw [Call.undelivered, hd₀] at hactive
        exact ⟨hkind, hscope, rfl, fun _ _ => hactive⟩
      · rw [if_neg hid] at hd ho
        exact hinv.agree id d o hd ho
    · rw [hsame.getDispatch] at hd
      split at ho
      · rename_i hid
        subst hid
        rw [hnone] at hd
        cases hd
      · exact hinv.agree id d o hd ho
  | application hissued => exact hinv.agree id d o hd ho
  | retire hnew => exact hinv.agree id d o hd ho

/-- A change leaves no dispatch without an operation marked finishing. -/
theorem orphan (hc : Change db begun db') (hinv : Inv db) (id : OperationId) (d : OperationDispatch)
    (hd : db'.getDispatch id = some d) (ho : db'.getOperation id = none) :
    d.finishing = false := by
  cases hc with
  | request hrequest hop => exact hinv.orphan id d hd ho
  | enqueue hid hkind hscope hdispatch hrequest hput =>
    have ho' := ((Database.same_putDispatch hput).getOperation id).symm.trans ho
    rw [Database.getDispatch_putRequest, Database.getDispatch_put hput] at hd
    split at hd
    · cases hd
      rfl
    · exact hinv.orphan id d hd ho'
  | @dispatch id' d₀ _ _ _ hd₀ hactive hended hput =>
    have ho' := ((Database.same_putDispatch hput).getOperation id).symm.trans ho
    rw [Database.getDispatch_put hput] at hd
    split at hd
    · rename_i hid
      subst hid
      cases hd
      exact hinv.orphan id d₀ hd₀ ho'
    · exact hinv.orphan id d hd ho'
  | begin hissued hadmission hnone hfresh hput =>
    have hd' := ((Database.same_putOperation hput).getDispatch id).symm.trans hd
    rw [Database.getOperation_put hput] at ho
    split at ho
    · cases ho
    · exact hinv.orphan id d hd' ho
  | amend ho₀ hput hamends =>
    have hd' := ((Database.same_putOperation hput).getDispatch id).symm.trans hd
    rw [Database.getOperation_put hput] at ho
    split at ho
    · cases ho
    · exact hinv.orphan id d hd' ho
  | finishing hissued ho₀ hput hdispatch =>
    rw [getOperation_of_finishing hdispatch, Database.getOperation_put hput] at ho
    split at ho
    · cases ho
    · rename_i hid
      have hsame := Database.same_putOperation hput
      obtain ⟨d₀, hd₀, hput'⟩ | ⟨hnone, rfl⟩ := hdispatch
      · rw [Database.getDispatch_put hput', if_neg hid, hsame.getDispatch] at hd
        exact hinv.orphan id d hd ho
      · rw [hsame.getDispatch] at hd
        exact hinv.orphan id d hd ho
  | application hissued => exact hinv.orphan id d hd ho
  | retire hnew => exact hinv.orphan id d hd ho

/-- A change makes no request under the ID of a direct caller's operation. -/
theorem direct (hc : Change db begun db') (hinv : Inv db) (id : OperationId) (o : Operation)
    (ho : db'.getOperation id = some o) (hd : db'.getDispatch id = none) :
    db'.getRequest id = none := by
  cases hc with
  | @request id' _ hrequest hop =>
    rw [Database.getRequest_put]
    split
    · rename_i hid
      subst hid
      rw [Database.getOperation_putRequest, hop] at ho
      cases ho
    · exact hinv.direct id o ho hd
  | enqueue hid hkind hscope hdispatch hrequest hput =>
    have hsame := Database.same_putDispatch hput
    have ho' := (hsame.getOperation id).symm.trans ho
    rw [Database.getDispatch_putRequest, Database.getDispatch_put hput] at hd
    split at hd
    · cases hd
    · rename_i hid
      rw [Database.getRequest_put, if_neg hid, hsame.getRequest]
      exact hinv.direct id o ho' hd
  | dispatch hd₀ hactive hended hput =>
    have hsame := Database.same_putDispatch hput
    have ho' := (hsame.getOperation id).symm.trans ho
    rw [Database.getDispatch_put hput] at hd
    split at hd
    · cases hd
    · rw [hsame.getRequest]
      exact hinv.direct id o ho' hd
  | begin hissued hadmission hnone hfresh hput =>
    have hsame := Database.same_putOperation hput
    have hd' := (hsame.getDispatch id).symm.trans hd
    rw [hsame.getRequest]
    rw [Database.getOperation_put hput] at ho
    split at ho
    · rename_i hid
      subst hid
      rw [Call.beginIssued, hd'] at hissued
      exact Option.isNone_iff_eq_none.mp hissued
    · exact hinv.direct id o ho hd'
  | @amend id' o₀ _ _ ho₀ hput hamends =>
    have hsame := Database.same_putOperation hput
    have hd' := (hsame.getDispatch id).symm.trans hd
    rw [hsame.getRequest]
    rw [Database.getOperation_put hput] at ho
    split at ho
    · rename_i hid
      subst hid
      exact hinv.direct id o₀ ho₀ hd'
    · exact hinv.direct id o ho hd'
  | @finishing id' o₀ _ _ hissued ho₀ hput hdispatch =>
    rw [getOperation_of_finishing hdispatch, Database.getOperation_put hput] at ho
    have hsame := Database.same_putOperation hput
    have hd' : db.getDispatch id = none ∧ db'.getRequest id = db.getRequest id := by
      obtain ⟨d₀, hd₀, hput'⟩ | ⟨hnone, rfl⟩ := hdispatch
      · rw [Database.getDispatch_put hput'] at hd
        split at hd
        · cases hd
        · exact ⟨(hsame.getDispatch id).symm.trans hd,
            ((Database.same_putDispatch hput').getRequest id).trans (hsame.getRequest id)⟩
      · exact ⟨(hsame.getDispatch id).symm.trans hd, hsame.getRequest id⟩
    rw [hd'.2]
    split at ho
    · rename_i hid
      subst hid
      exact hinv.direct id o₀ ho₀ hd'.1
    · exact hinv.direct id o ho hd'.1
  | application hissued => exact hinv.direct id o ho hd
  | retire hnew => exact hinv.direct id o ho hd

/-- A change makes no dispatch under a malformed ID, kind or scope. -/
theorem valid (hc : Change db begun db') (hinv : Inv db) (id : OperationId)
    (d : OperationDispatch) (hd : db'.getDispatch id = some d) :
    isUuid id = true ∧ isOperationToken d.kind = true ∧ isOperationToken d.scope = true := by
  cases hc with
  | request hrequest hop => exact hinv.valid id d hd
  | enqueue hid hkind hscope hdispatch hrequest hput =>
    rw [Database.getDispatch_putRequest, Database.getDispatch_put hput] at hd
    split at hd
    · rename_i hk
      subst hk
      cases hd
      exact ⟨hid, hkind, hscope⟩
    · exact hinv.valid id d hd
  | @dispatch id' d₀ _ _ _ hd₀ hactive hended hput =>
    rw [Database.getDispatch_put hput] at hd
    split at hd
    · rename_i hk
      subst hk
      cases hd
      exact hinv.valid id d₀ hd₀
    · exact hinv.valid id d hd
  | begin hissued hadmission hnone hfresh hput =>
    exact hinv.valid id d (((Database.same_putOperation hput).getDispatch id).symm.trans hd)
  | amend ho hput hamends =>
    exact hinv.valid id d (((Database.same_putOperation hput).getDispatch id).symm.trans hd)
  | @finishing id' o₀ _ _ hissued ho₀ hput hdispatch =>
    have hsame := Database.same_putOperation hput
    obtain ⟨d₀, hd₀, hput'⟩ | ⟨hnone, rfl⟩ := hdispatch
    · rw [Database.getDispatch_put hput'] at hd
      split at hd
      · rename_i hk
        subst hk
        cases hd
        exact hinv.valid id d₀ hd₀
      · exact hinv.valid id d ((hsame.getDispatch id).symm.trans hd)
    · exact hinv.valid id d ((hsame.getDispatch id).symm.trans hd)
  | application hissued => exact hinv.valid id d hd
  | retire hnew => exact hinv.valid id d hd

/-- **Every change keeps the invariant of the journal.** -/
theorem inv (hc : Change db begun db') (hinv : Inv db) : Inv db' where
  agree := hc.agree hinv
  orphan := hc.orphan hinv
  direct := hc.direct hinv
  valid := hc.valid hinv
  guarded := hc.guarded hinv.guarded (fun _ => hc.finishingOperation) fun _ _ hadmission =>
    guards_of_admission hadmission fun hb _ => hb

end Change

/-! ## Calls are changes -/

namespace Call

variable {db db' : Database}

/-- An amendment is a change. -/
theorem amend_of_finish {id : OperationId} {status : OperationStatus}
    {phase cleanupState : Option String}
    (h : finishOperation id status phase cleanupState db = .ok db') : Change db none db' := by
  obtain ⟨o, ho, hn, hput⟩ := finishOperation_ok h
  exact .amend ho hput ⟨hn, rfl, rfl, rfl⟩

/-- The dispatch whose status the executor writes is active. -/
theorem active_of_statusIssued (hinv : Inv db) {id : OperationId} {d : OperationDispatch}
    {status : DispatchStatus} (hd : db.getDispatch id = some d)
    (h : statusIssued db id d status = true) : d.status.active = true := by
  have hactive : d.status = .pending ∨ d.status = .running → d.status.active = true := by
    rintro (h | h) <;> rw [h] <;> rfl
  cases status with
  | pending => cases h
  | running => exact hactive (.inl (beq_iff_eq.mp h))
  | finished =>
    simp only [statusIssued, Bool.and_eq_true, Bool.or_eq_true, beq_iff_eq] at h
    exact hactive h.1
  | recoveryRequired =>
    simp only [statusIssued, Bool.or_eq_true, beq_iff_eq] at h
    obtain h | h := h
    · exact hactive h
    · split at h
      · rename_i o ho
        obtain ⟨hf, hn⟩ := Bool.and_eq_true_iff.mp h
        exact (hinv.agree id d o hd ho).2.2.2 hn hf
      · cases h

theorem finishable_of_statusIssued {id : OperationId} {d : OperationDispatch}
    {status : DispatchStatus} (h : statusIssued db id d status = true)
    (hstatus : status = .finished) : finishable db id = true := by
  subst hstatus
  exact (Bool.and_eq_true_iff.mp h).2

/-- A sequence of changes that begin nothing. -/
def Changes : Database → Database → Prop :=
  Relation.ReflTransGen fun db db' => Change db none db'

/-- **An issued call that succeeds begins one operation, or is a sequence of changes that begin
none.** -/
theorem changes {call : Call} (hinv : Inv db) (hissued : call.issued db = true)
    (h : call.run db = .ok db') :
    (∃ r, call = beginOperation r ∧ Change db (some r) db') ∨
      Changes db db' := by
  cases call with
  | claimIdempotencyRequest id fp =>
    obtain rfl | ⟨hnone, rfl⟩ := claimIdempotencyRequest_ok h
    · exact .inr .refl
    · refine .inr (.single (.request hnone ?_))
      simp only [issued, Bool.or_eq_true, Option.isNone_iff_eq_none] at hissued
      refine hissued.resolve_right fun hsome => ?_
      rw [hnone] at hsome
      cases hsome
  | enqueueOperationDispatch id kind scope now =>
    have h' : (Controller.enqueueOperationDispatch id kind scope now db).map Prod.snd =
        .ok db' := h
    cases henq : Controller.enqueueOperationDispatch id kind scope now db with
    | error e => simp [henq, Except.map] at h'
    | ok result =>
      obtain ⟨created, db₂⟩ := result
      rw [henq] at h'
      cases h'
      obtain ⟨-, hsame, -⟩ | ⟨-, hid, hkind, hscope, hd, -, -, -, request, db₁, hrequest, hput,
          rfl⟩ := enqueueOperationDispatch_ok henq
      · rw [show Prod.snd (created, db₂) = db from hsame]
        exact .inr .refl
      · exact .inr (.single (.enqueue hid hkind hscope hd hrequest hput))
  | requeueRecoveryDispatch id kind scope automatic now =>
    obtain ⟨d, o, hd, ho, heligible, hrest⟩ := requeueRecoveryDispatch_ok h
    obtain ⟨hstatus, hn, -⟩ := requeueEligible_iff.mp heligible
    have hactive : d.status.active = true := by
      rw [hstatus]
      rfl
    obtain ⟨-, retry, db₁, -, hput, hput'⟩ | ⟨-, hput'⟩ := hrest
    · refine .inr (.tail (.single (.amend ho hput ⟨hn, rfl, rfl, rfl⟩))
        (.dispatch ?_ hactive ?_ hput'))
      · rw [(Database.same_putOperation hput).getDispatch, hd]
      · intro hfinished
        cases hfinished
    · exact .inr (.single (.dispatch hd hactive (fun hfinished => absurd hfinished (by simp))
        hput'))
  | setOperationDispatchStatus id status now =>
    obtain ⟨d, hd, hput⟩ := setOperationDispatchStatus_ok h
    simp only [issued, hd] at hissued
    exact .inr (.single (.dispatch hd (active_of_statusIssued hinv hd hissued)
      (finishable_of_statusIssued hissued) hput))
  | beginOperation r =>
    obtain ⟨-, hadmission, hnone, hfresh, hput⟩ := beginOperation_ok h
    exact .inl ⟨r, rfl, .begin hissued hadmission hnone hfresh hput⟩
  | renewOperationDeadline id deadlineAt =>
    obtain ⟨o, ho, hn, hput⟩ := renewOperationDeadline_ok h
    exact .inr (.single (.amend ho hput ⟨hn, rfl, rfl, rfl⟩))
  | checkpointOperation id c =>
    obtain ⟨o, ho, hn, hput⟩ := checkpointOperation_ok h
    exact .inr (.single (.amend ho hput ⟨hn, rfl, rfl, rfl⟩))
  | markOperationFinishing id =>
    obtain ⟨o, db₁, ho, -, hput, hdispatch⟩ := markOperationFinishing_ok h
    exact .inr (.single (.finishing hissued ho hput hdispatch))
  | markRecoveryRequired id phase => exact .inr (.single (amend_of_finish h))
  | recordFinishingFailure id =>
    obtain ⟨o, ho, hn, -, hput⟩ := recordFinishingFailure_ok h
    exact .inr (.single (.amend ho hput ⟨hn, rfl, rfl, rfl⟩))
  | markSucceeded id cleanup => exact .inr (.single (amend_of_finish h))
  | markFailed id cleanup => exact .inr (.single (amend_of_finish (markFailed_ok h)))
  | schedule id now =>
    obtain rfl | ⟨o, ho, -, hn, hput⟩ := schedule_ok h
    · exact .inr .refl
    · exact .inr (.single (.amend ho hput (amends_scheduledRow hn now)))
  | putApplication id a =>
    cases h
    refine .inr (.single (.application ?_))
    simpa only [issued, Bool.or_eq_true, Bool.not_eq_true'] using hissued
  | retireSlug slug id =>
    cases h
    exact .inr (.single (.retire (Option.isNone_iff_eq_none.mp hissued)))

/-- A sequence of changes keeps the invariant. -/
theorem inv_of_changes (hinv : Inv db) (h : Changes db db') : Inv db' := by
  induction h with
  | refl => exact hinv
  | tail _ hc ih => exact hc.inv ih

end Call

/-- A step keeps the invariant. -/
theorem JournalStep.inv {db db' : Database} {call : Call} (h : JournalStep db call db')
    (hinv : Inv db) : Inv db' := by
  obtain ⟨hissued, hok | ⟨e, -, rfl⟩⟩ := h
  · obtain ⟨r, -, hc⟩ | hcs := Call.changes hinv hissued hok
    · exact hc.inv hinv
    · exact Call.inv_of_changes hinv hcs
  · exact hinv

end Controller
end OpenstackPlatform
