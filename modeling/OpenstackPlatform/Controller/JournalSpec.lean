import OpenstackPlatform.Controller.Journal

/-!
# What the journal functions do

One lemma for each function of `Controller.Journal`: what a call that succeeds has checked and
written, and when a call cannot fail.  Later proofs use these and do not unfold the functions.

Most writes of `operations` are *amendments*: they change a running or recovering row and keep its
kind, its scope and its finishing flag (`Amends`).  Such a write keeps the row's place in both
indexes, so no index can reject it.
-/

namespace OpenstackPlatform
namespace Controller

open Library Validation

/-! ## Selections -/

variable {db : Database} {scope : String} {id : OperationId}

theorem getUnfinishedOperation_eq_some {o : Operation}
    (h : getUnfinishedOperation db scope = some (id, o)) :
    db.getOperation id = some o ∧ o.unfinishedScope = some scope := by
  obtain ⟨ho, hs⟩ := Table.find?_eq_some h
  exact ⟨ho, beq_iff_eq.mp hs⟩

theorem getUnfinishedOperation_eq_none : getUnfinishedOperation db scope = none ↔
      ∀ id o, db.getOperation id = some o → o.unfinishedScope ≠ some scope := by
  rw [getUnfinishedOperation, Table.find?_eq_none]
  simp only [beq_eq_false_iff_ne, Database.getOperation]

theorem getFinishingOperation_eq_some {o : Operation}
    (h : getFinishingOperation db scope = some (id, o)) :
    db.getOperation id = some o ∧ o.finishingScope = some scope := by
  obtain ⟨ho, hs⟩ := Table.find?_eq_some h
  exact ⟨ho, beq_iff_eq.mp hs⟩

theorem getFinishingOperation_eq_none : getFinishingOperation db scope = none ↔
      ∀ id o, db.getOperation id = some o → o.finishingScope ≠ some scope := by
  rw [getFinishingOperation, Table.find?_eq_none]
  simp only [beq_eq_false_iff_ne, Database.getOperation]

/-- The finishing operation that is found is the one of the scope. -/
theorem getFinishingOperation_of_lookup {o : Operation} (ho : db.getOperation id = some o)
    (hs : o.finishingScope = some scope) : getFinishingOperation db scope = some (id, o) := by
  cases h : getFinishingOperation db scope with
  | none => exact absurd hs (getFinishingOperation_eq_none.mp h id o ho)
  | some found =>
    obtain ⟨id', o'⟩ := found
    obtain ⟨ho', hs'⟩ := getFinishingOperation_eq_some h
    obtain rfl := db.one_finishing_operation.key_eq ho' ho hs' hs
    rw [Option.some.inj (ho'.symm.trans ho)]

variable {d : OperationDispatch}

theorem getActiveDispatch_eq_some (h : getActiveDispatch db scope = some (id, d)) :
    db.getDispatch id = some d ∧ d.activeScope = some scope := by
  obtain ⟨hd, hs⟩ := Table.find?_eq_some h
  exact ⟨hd, beq_iff_eq.mp hs⟩

theorem getActiveDispatch_eq_none : getActiveDispatch db scope = none ↔
      ∀ id d, db.getDispatch id = some d → d.activeScope ≠ some scope := by
  rw [getActiveDispatch, Table.find?_eq_none]
  simp only [beq_eq_false_iff_ne, Database.getDispatch]

/-- An application that is not retired is found by its own ID. -/
theorem getApplication_of_lookup {id : String} {a : Application}
    (ha : db.applications.lookup id = some a) (hlive : notTombstoned db id = true) :
    getApplication db id = some (id, a) := by
  rw [getApplication, ha]
  simp only [hlive, if_true]

/-- The application ID is what `check_finishing_admission` reads from an application's scope. -/
theorem removePrefix_app (id : String) : removePrefix "app-" ("app-" ++ id) = id := by
  rw [removePrefix]
  simp [String.length]

variable {kind : String}

/-- Admission next to a finishing operation. -/
theorem checkFinishingAdmission_of_finishing {o : Operation} (ho : db.getOperation id = some o)
    (hs : o.finishingScope = some scope) :
    checkFinishingAdmission db scope kind =
      require (admits db scope kind o) (.finishingOperationConflict id) := by
  rw [checkFinishingAdmission, getFinishingOperation_of_lookup ho hs]

/-- The only way admission fails. -/
theorem checkFinishingAdmission_eq_error {e : Error}
    (h : checkFinishingAdmission db scope kind = .error e) :
    ∃ id, e = .finishingOperationConflict id := by
  rw [checkFinishingAdmission] at h
  split at h
  · cases h
  · rename_i id o _
    exact ⟨id, (require_eq_error.mp h).2.symm⟩

/-- A deployment is never admitted next to a finishing operation. -/
theorem admits_deploy (db : Database) (scope : String) (o : Operation) :
    admits db scope "app.deploy" o = false := by
  have h₁ : admittedKinds.contains "app.deploy" = false := by decide
  have h₂ : ("app.deploy" == "app.enable" || "app.deploy" == "app.disable") = false := by decide
  rw [admits, h₁, h₂]
  simp

/-- An enable is admitted only for an application that should be running. -/
theorem admits_enable {id : String} {a : Application} {o : Operation}
    (ha : db.applications.lookup id = some a) (hlive : notTombstoned db id = true)
    (h : admits db ("app-" ++ id) "app.enable" o = true) : a.desiredRunning = true := by
  have h₁ : admittedKinds.contains "app.enable" = false := by decide
  rw [admits, h₁] at h
  simp only [Bool.false_eq_true, if_false, beq_self_eq_true, Bool.true_or, Bool.true_and,
    if_true, removePrefix_app, getApplication_of_lookup ha hlive] at h
  split at h
  · exact h
  · cases h

/-! ## Amendments -/

/-- One row of `operations` replaces a running or recovering one and keeps its kind, its scope and
its finishing flag. -/
structure Amends (o o' : Operation) : Prop where
  nonterminal : o.nonterminal = true
  kind : o'.kind = o.kind
  scope : o'.scope = o.scope
  finishing : o'.finishing = o.finishing

namespace Amends

variable {o o' : Operation}

theorem unfinishedScope (h : Amends o o') (s : String) (hs : o'.unfinishedScope = some s) :
    o.unfinishedScope = some s := by
  rw [Operation.unfinishedScope_eq_some] at hs ⊢
  exact ⟨h.nonterminal, h.finishing ▸ hs.2.1, h.scope ▸ hs.2.2⟩

theorem finishingScope (h : Amends o o') (s : String) (hs : o'.finishingScope = some s) :
    o.finishingScope = some s := by
  rw [Operation.finishingScope_eq_some] at hs ⊢
  exact ⟨h.nonterminal, h.finishing ▸ hs.2.1, h.scope ▸ hs.2.2⟩

/-- No index rejects an amendment. -/
theorem exists_put {db : Database} {id : OperationId} (h : Amends o o')
    (ho : db.getOperation id = some o) : ∃ db', db.putOperation id o' = .ok db' :=
  Database.exists_putOperation_of_slot ho h.unfinishedScope h.finishingScope

end Amends

variable {f : Operation → Operation} {db' : Database}

/-- An update of a running or recovering row, when it succeeds. -/
theorem updateNonterminal_ok (h : updateNonterminal id f db = .ok db') :
    ∃ o, db.getOperation id = some o ∧ o.nonterminal = true ∧
      db.putOperation id (f o) = .ok db' := by
  rw [updateNonterminal] at h
  split at h
  · rename_i o ho
    split at h
    · rename_i hn
      exact ⟨o, ho, hn, h⟩
    · cases h
  · cases h

/-- An update that is an amendment succeeds on every running or recovering row. -/
theorem exists_updateNonterminal {o : Operation} (ho : db.getOperation id = some o)
    (h : Amends o (f o)) : ∃ db', updateNonterminal id f db = .ok db' := by
  obtain ⟨db', hput⟩ := h.exists_put ho
  refine ⟨db', ?_⟩
  rw [updateNonterminal, ho]
  simp only [h.nonterminal, if_true]
  exact hput

/-- No index rejects an update that is an amendment. -/
theorem indexSafe_updateNonterminal (hf : ∀ o, o.nonterminal = true → Amends o (f o)) :
    IndexSafe (updateNonterminal id f db) := by
  rw [updateNonterminal]
  split
  · rename_i o ho
    split
    · rename_i hn
      exact .of_exists ((hf o hn).exists_put ho)
    · exact .error rfl
  · exact .error rfl

/-! ## The functions -/

theorem checkUuid_eq_ok {field value : String} {u : Unit} :
    checkUuid field value = .ok u ↔ isUuid value = true := require_eq_ok

theorem indexSafe_checkRefs (refs : Refs) : IndexSafe (checkRefs refs) := by
  rw [checkRefs]
  split
  · exact .error rfl
  · exact .require rfl

theorem indexSafe_checkGiven {α : Type} {check : α → Except Error Unit}
    (h : ∀ a, IndexSafe (check a)) (o : Option α) : IndexSafe (checkGiven check o) := by
  cases o with
  | none => exact .ok ()
  | some a => exact h a

theorem indexSafe_checkFinishingAdmission (db : Database) (scope kind : String) :
    IndexSafe (checkFinishingAdmission db scope kind) := by
  rw [checkFinishingAdmission]
  split
  · exact .ok ()
  · exact .require rfl

/-- `claim_idempotency_request` inserts a request that is not there yet. -/
theorem claimIdempotencyRequest_ok {id fp : String}
    (h : claimIdempotencyRequest id fp db = .ok db') :
    db' = db ∨ (db.getRequest id = none ∧ db' = db.putRequest id ⟨fp, none, none⟩) := by
  rw [claimIdempotencyRequest] at h
  simp only [check_bind_eq_ok] at h
  obtain ⟨-, -, h⟩ := h
  split at h
  · exact .inl (Except.ok.inj (check_bind_eq_ok.mp h).2).symm
  · rename_i hnone
    exact .inr ⟨hnone, (Except.ok.inj h).symm⟩

/-- What `begin_operation` has checked and written when it returns. -/
theorem beginOperation_ok {r : BeginOperation} (h : beginOperation r db = .ok db') :
    isUuid r.operationId = true ∧ checkFinishingAdmission db r.scope r.kind = .ok () ∧
      getUnfinishedOperation db r.scope = none ∧ db.getOperation r.operationId = none ∧
      db.putOperation r.operationId r.row = .ok db' := by
  rw [beginOperation] at h
  simp only [check_bind_eq_ok] at h
  obtain ⟨hid, -, -, -, -, hadmission, h⟩ := h
  split at h
  · cases h
  · rename_i hnone
    simp only [check_bind_eq_ok] at h
    obtain ⟨-, -, h⟩ := h
    split at h
    · cases h
    · rename_i hfresh
      exact ⟨checkUuid_eq_ok.mp hid, hadmission, hnone, hfresh, h⟩

/-- A new operation meets no row in either index once its scope has no unfinished operation. -/
theorem exists_put_row {r : BeginOperation} (h : getUnfinishedOperation db r.scope = none) :
    ∃ db', db.putOperation r.operationId r.row = .ok db' := by
  refine Database.exists_putOperation ?_ ?_
  · intro k o s _ ho hs
    obtain ⟨-, -, rfl⟩ := Operation.unfinishedScope_eq_some.mp hs
    exact getUnfinishedOperation_eq_none.mp h k o ho
  · intro k o s _ _ hs
    exact absurd (Operation.finishingScope_eq_some.mp hs).2.1 Bool.false_ne_true

theorem indexSafe_checkStorage (r : BeginOperation) : IndexSafe r.checkStorage := by
  rw [BeginOperation.checkStorage]
  split
  · split
    · exact .error rfl
    · exact .ok ()
  · exact .ok ()

/-- No index rejects the row of `begin_operation`. -/
theorem indexSafe_beginOperation (r : BeginOperation) (db : Database) :
    IndexSafe (beginOperation r db) := by
  rw [beginOperation]
  refine .bind (.require rfl) fun _ _ => .bind (.require rfl) fun _ _ => .bind (.require rfl)
    fun _ _ => .bind (.require rfl) fun _ _ => .bind (.require rfl) fun _ _ =>
    .bind (indexSafe_checkFinishingAdmission db _ _) fun _ _ => ?_
  split
  · exact .error rfl
  · rename_i hnone
    refine .bind (indexSafe_checkStorage r) fun _ _ => .bind (indexSafe_checkRefs _) fun _ _ => ?_
    split
    · exact .error rfl
    · exact .of_exists (exists_put_row hnone)

/-- `_finish_operation` amends a running or recovering row. -/
theorem finishOperation_ok {status : OperationStatus} {phase cleanupState : Option String}
    (h : finishOperation id status phase cleanupState db = .ok db') :
    ∃ o, db.getOperation id = some o ∧ o.nonterminal = true ∧
      db.putOperation id { o with
        status := status
        phase := phase.getD o.phase
        cleanupState := cleanupState.getD o.cleanupState } = .ok db' := by
  rw [finishOperation] at h
  simp only [check_bind_eq_ok] at h
  obtain ⟨-, -, -, h⟩ := h
  exact updateNonterminal_ok h

/-- No index rejects a change of an operation's status. -/
theorem indexSafe_finishOperation (id : OperationId) (status : OperationStatus)
    (phase cleanupState : Option String) (db : Database) :
    IndexSafe (finishOperation id status phase cleanupState db) := by
  rw [finishOperation]
  refine .bind (.require rfl) fun _ _ =>
    .bind (indexSafe_checkGiven (fun _ => .require rfl) phase) fun _ _ =>
    .bind (indexSafe_checkGiven (fun _ => .require rfl) cleanupState) fun _ _ => ?_
  exact indexSafe_updateNonterminal fun o ho => ⟨ho, rfl, rfl, rfl⟩

/-- Ending a running or recovering operation succeeds. -/
theorem exists_finishOperation {status : OperationStatus} {cleanupState : Option String}
    {o : Operation} (hid : isUuid id = true)
    (hcleanup : ∀ state, cleanupState = some state → isCleanupState state = true)
    (ho : db.getOperation id = some o) (hn : o.nonterminal = true) :
    ∃ db', finishOperation id status none cleanupState db = .ok db' := by
  obtain ⟨db', hdb'⟩ := exists_updateNonterminal (f := fun o => { o with
    status := status
    phase := (none : Option String).getD o.phase
    cleanupState := cleanupState.getD o.cleanupState }) ho ⟨hn, rfl, rfl, rfl⟩
  refine ⟨db', ?_⟩
  rw [finishOperation]
  simp only [check_bind_eq_ok]
  refine ⟨checkUuid_eq_ok.mpr hid, rfl, ?_, hdb'⟩
  cases hc : cleanupState with
  | none => rfl
  | some state => exact require_eq_ok.mpr (hcleanup state hc)

/-- `renew_operation_deadline` makes a running or recovering operation running. -/
theorem renewOperationDeadline_ok {deadlineAt : String}
    (h : renewOperationDeadline id deadlineAt db = .ok db') :
    ∃ o, db.getOperation id = some o ∧ o.nonterminal = true ∧
      db.putOperation id { o with deadlineAt := deadlineAt, status := .running } = .ok db' := by
  rw [renewOperationDeadline] at h
  simp only [check_bind_eq_ok] at h
  exact updateNonterminal_ok h.2.2

theorem indexSafe_renewOperationDeadline (id : OperationId) (deadlineAt : String)
    (db : Database) : IndexSafe (renewOperationDeadline id deadlineAt db) := by
  rw [renewOperationDeadline]
  refine .bind (.require rfl) fun _ _ => .bind (.require rfl) fun _ _ => ?_
  exact indexSafe_updateNonterminal fun o ho => ⟨ho, rfl, rfl, rfl⟩

/-- `checkpoint_operation` writes the row its arguments describe. -/
theorem checkpointOperation_ok {c : Checkpoint} (h : checkpointOperation id c db = .ok db') :
    ∃ o, db.getOperation id = some o ∧ o.nonterminal = true ∧
      db.putOperation id (c.apply o) = .ok db' := by
  rw [checkpointOperation] at h
  simp only [check_bind_eq_ok] at h
  obtain ⟨-, -, h⟩ := h
  split at h
  · rename_i o ho
    split at h
    · rename_i hn
      exact ⟨o, ho, hn, (check_bind_eq_ok.mp h).2⟩
    · cases h
  · cases h

theorem indexSafe_checkpointOperation (id : OperationId) (c : Checkpoint) (db : Database) :
    IndexSafe (checkpointOperation id c db) := by
  rw [checkpointOperation, Checkpoint.check]
  refine .bind (.require rfl) fun _ _ => .bind ?_ fun _ _ => ?_
  · exact .bind (.require rfl) fun _ _ =>
      .bind (indexSafe_checkGiven (fun _ => .require rfl) _) fun _ _ =>
      .bind (indexSafe_checkGiven indexSafe_checkRefs _) fun _ _ =>
      indexSafe_checkGiven (fun _ => .require rfl) _
  · split
    · rename_i o ho
      split
      · rename_i hn
        refine .bind (indexSafe_checkGiven indexSafe_checkRefs _) fun _ _ => .of_exists ?_
        exact Amends.exists_put (o := o) ⟨hn, rfl, rfl, rfl⟩ ho
      · exact .error rfl
    · exact .error rfl

/-- `record_finishing_failure` leaves a finishing operation running. -/
theorem recordFinishingFailure_ok (h : recordFinishingFailure id db = .ok db') :
    ∃ o, db.getOperation id = some o ∧ o.nonterminal = true ∧ o.finishing = true ∧
      db.putOperation id { o with status := .running } = .ok db' := by
  rw [recordFinishingFailure] at h
  split at h
  · rename_i o ho
    split at h
    · rename_i hf
      obtain ⟨o', ho', hn, hput⟩ := finishOperation_ok h
      cases ho.symm.trans ho'
      exact ⟨o, ho, hn, hf, hput⟩
    · cases h
  · cases h

theorem indexSafe_recordFinishingFailure (id : OperationId) (db : Database) :
    IndexSafe (recordFinishingFailure id db) := by
  rw [recordFinishingFailure]
  split
  · split
    · exact indexSafe_finishOperation _ _ _ _ _
    · exact .error rfl
  · exact .error rfl

theorem markFailed_ok {cleanupState : String} (h : markFailed id cleanupState db = .ok db') :
    finishOperation id .failed none (some cleanupState) db = .ok db' :=
  (check_bind_eq_ok.mp h).2

theorem indexSafe_markFailed (id : OperationId) (cleanupState : String) (db : Database) :
    IndexSafe (markFailed id cleanupState db) :=
  .bind (.require rfl) fun _ _ => indexSafe_finishOperation _ _ _ _ _

variable {now : Timestamp}

/-- `schedule` amends a finishing operation, and does nothing else. -/
theorem schedule_ok (h : schedule id now db = .ok db') :
    db' = db ∨ ∃ o, db.getOperation id = some o ∧ o.finishing = true ∧ o.nonterminal = true ∧
      db.putOperation id (scheduledRow now o) = .ok db' := by
  rw [schedule] at h
  split at h
  · rename_i o ho
    split at h
    · rename_i hpending
      obtain ⟨hf, hn⟩ := Bool.and_eq_true_iff.mp hpending
      exact .inr ⟨o, ho, hf, hn, (check_bind_eq_ok.mp h).2⟩
    · exact .inl (Except.ok.inj h).symm
  · exact .inl (Except.ok.inj h).symm

/-- `schedule` on an operation that is finishing. -/
theorem schedule_of_pending {o : Operation} (ho : db.getOperation id = some o)
    (hf : o.finishing = true) (hn : o.nonterminal = true) : schedule id now db =
      checkRefs (scheduledRefs now o.refs) >>= fun _ =>
        db.putOperation id (scheduledRow now o) := by
  rw [schedule, ho]
  simp only [hf, hn, Bool.and_self, if_true]

theorem amends_scheduledRow {o : Operation} (h : o.nonterminal = true) (now : Timestamp) :
    Amends o (scheduledRow now o) := ⟨h, rfl, rfl, rfl⟩

theorem indexSafe_schedule (id : OperationId) (now : Timestamp) (db : Database) :
    IndexSafe (schedule id now db) := by
  rw [schedule]
  split
  · rename_i o ho
    split
    · rename_i hpending
      have hn := (Bool.and_eq_true_iff.mp hpending).2
      exact .bind (indexSafe_checkRefs _) fun _ _ =>
        .of_exists ((amends_scheduledRow hn now).exists_put ho)
    · exact .ok db
  · exact .ok db

variable {status : DispatchStatus}

/-- `set_operation_dispatch_status` changes the status of one dispatch. -/
theorem setOperationDispatchStatus_ok (h : setOperationDispatchStatus id status now db = .ok db') :
    ∃ d, db.getDispatch id = some d ∧
      db.putDispatch id { d with status := status, updatedAt := now } = .ok db' := by
  rw [setOperationDispatchStatus] at h
  simp only [check_bind_eq_ok] at h
  obtain ⟨-, -, h⟩ := h
  split at h
  · cases h
  · rename_i d hd
    exact ⟨d, hd, h⟩

/-- A write of a dispatch that was active and keeps its scope and finishing flag succeeds. -/
theorem exists_putDispatch_of_active {d' : OperationDispatch} (hd : db.getDispatch id = some d)
    (ha : d.status.active = true) (hs : d'.scope = d.scope) (hf : d'.finishing = d.finishing) :
    ∃ db', db.putDispatch id d' = .ok db' := by
  refine Database.exists_putDispatch_of_slot hd ?_ ?_
  · intro s h
    rw [OperationDispatch.activeScope_eq_some] at h ⊢
    exact ⟨ha, hf ▸ h.2.1, hs ▸ h.2.2⟩
  · intro s h
    rw [OperationDispatch.finishingScope_eq_some] at h ⊢
    exact ⟨ha, hf ▸ h.2.1, hs ▸ h.2.2⟩

/-- Settling an active dispatch succeeds. -/
theorem exists_setOperationDispatchStatus
     (hid : isUuid id = true) (hstatus : status ≠ .pending) (hd : db.getDispatch id = some d)
    (ha : d.status.active = true) :
    ∃ db', setOperationDispatchStatus id status now db = .ok db' := by
  obtain ⟨db', hput⟩ : ∃ db',
      db.putDispatch id { d with status := status, updatedAt := now } = .ok db' :=
    exists_putDispatch_of_active hd ha rfl rfl
  refine ⟨db', ?_⟩
  rw [setOperationDispatchStatus]
  simp only [check_bind_eq_ok]
  refine ⟨checkUuid_eq_ok.mpr hid, require_eq_ok.mpr (bne_iff_ne.mpr hstatus), ?_⟩
  simp only [hd]
  exact hput

/-- No index rejects a new status of a dispatch that is active already. -/
theorem indexSafe_setOperationDispatchStatus
    (ha : ∀ d, db.getDispatch id = some d → d.status.active = true) :
    IndexSafe (setOperationDispatchStatus id status now db) := by
  rw [setOperationDispatchStatus]
  refine .bind (.require rfl) fun _ _ => .bind (.require rfl) fun _ _ => ?_
  split
  · exact .error rfl
  · rename_i d hd
    exact .of_exists (exists_putDispatch_of_active hd (ha d hd) rfl rfl)

/-- What `enqueue_operation_dispatch` has checked and written when it returns. -/
theorem enqueueOperationDispatch_ok {id : String} {created : Bool}
    (h : enqueueOperationDispatch id kind scope now db = .ok (created, db')) :
    (created = false ∧ db' = db ∧
      ∃ d, db.getDispatch id = some d ∧ d.kind = kind ∧ d.scope = scope) ∨
    (created = true ∧ isUuid id = true ∧ isOperationToken kind = true ∧
      isOperationToken scope = true ∧ db.getDispatch id = none ∧
      getActiveDispatch db scope = none ∧ checkFinishingAdmission db scope kind = .ok () ∧
      getUnfinishedOperation db scope = none ∧
      ∃ request db₁, db.getRequest id = some request ∧
        db.putDispatch id ⟨kind, scope, .pending, now, false⟩ = .ok db₁ ∧
        db' = db₁.putRequest id
          { request with resultKind := some "operation", resultId := some id }) := by
  rw [enqueueOperationDispatch] at h
  simp only [check_bind_eq_ok] at h
  obtain ⟨hid, hkind, hscope, h⟩ := h
  split at h
  · rename_i d hd
    obtain ⟨hsame, h⟩ := check_bind_eq_ok.mp h
    cases h
    have hsame := Bool.and_eq_true_iff.mp (require_eq_ok.mp hsame)
    exact .inl ⟨rfl, rfl, d, hd, beq_iff_eq.mp hsame.1, beq_iff_eq.mp hsame.2⟩
  · rename_i hd
    split at h
    · cases h
    · rename_i request hrequest
      split at h
      · exact absurd (check_bind_eq_ok.mp h).2 (by simp)
      · split at h
        · cases h
        · rename_i hactive
          obtain ⟨hadmission, h⟩ := check_bind_eq_ok.mp h
          split at h
          · cases h
          · rename_i hnone
            obtain ⟨db₁, hput, h⟩ := bind_eq_ok.mp h
            cases h
            exact .inr ⟨rfl, checkUuid_eq_ok.mp hid, require_eq_ok.mp hkind,
              require_eq_ok.mp hscope, hd, hactive, hadmission, hnone, request, db₁, hrequest, hput,
              rfl⟩

/-- A new dispatch meets no row in either index once its scope has no active dispatch. -/
theorem exists_put_dispatch {id : String} (h : getActiveDispatch db scope = none) :
    ∃ db', db.putDispatch id ⟨kind, scope, .pending, now, false⟩ = .ok db' := by
  refine Database.exists_putDispatch ?_ ?_
  · intro k d s _ hd hs
    obtain ⟨-, -, rfl⟩ := OperationDispatch.activeScope_eq_some.mp hs
    exact getActiveDispatch_eq_none.mp h k d hd
  · intro k d s _ _ hs
    exact absurd (OperationDispatch.finishingScope_eq_some.mp hs).2.1 Bool.false_ne_true

/-- What an enqueue names when it refuses a busy scope. -/
theorem enqueueOperationDispatch_unfinished {id scope' k other : String}
    (h : enqueueOperationDispatch id kind scope now db =
      .error (.unfinishedOperation scope' k other)) :
    (∃ d, getActiveDispatch db scope = some (k, d)) ∨
      ∃ o, getUnfinishedOperation db scope = some (k, o) := by
  rw [enqueueOperationDispatch] at h
  obtain h | ⟨-, h⟩ := check_bind_eq_error.mp h
  · exact absurd (require_eq_error.mp h).2 (by simp)
  obtain h | ⟨-, h⟩ := check_bind_eq_error.mp h
  · exact absurd (require_eq_error.mp h).2 (by simp)
  obtain h | ⟨-, h⟩ := check_bind_eq_error.mp h
  · exact absurd (require_eq_error.mp h).2 (by simp)
  split at h
  · obtain h | ⟨-, h⟩ := check_bind_eq_error.mp h
    · exact absurd (require_eq_error.mp h).2 (by simp)
    · exact absurd h (by simp [pure, Except.pure])
  · split at h
    · cases h
    · split at h
      · obtain h | ⟨-, h⟩ := check_bind_eq_error.mp h
        · exact absurd (require_eq_error.mp h).2 (by simp)
        · cases h
      · split at h
        · rename_i active hactive
          obtain ⟨-, rfl, -⟩ := Error.unfinishedOperation.inj (Except.error.inj h)
          exact .inl ⟨_, hactive⟩
        · rename_i hactive
          obtain h | ⟨-, h⟩ := check_bind_eq_error.mp h
          · obtain ⟨_, he⟩ := checkFinishingAdmission_eq_error h
            cases he
          · split at h
            · rename_i hunfinished
              obtain ⟨-, rfl, -⟩ := Error.unfinishedOperation.inj (Except.error.inj h)
              exact .inr ⟨_, hunfinished⟩
            · obtain ⟨db₁, hput⟩ :
                  ∃ db₁, db.putDispatch id ⟨kind, scope, .pending, now, false⟩ = .ok db₁ :=
                exists_put_dispatch hactive
              rw [hput] at h
              exact absurd h (by simp [bind, Except.bind, pure, Except.pure])

/-- No index rejects a new dispatch. -/
theorem indexSafe_enqueueOperationDispatch (id kind scope : String) (now : Timestamp)
    (db : Database) : IndexSafe (enqueueOperationDispatch id kind scope now db) := by
  rw [enqueueOperationDispatch]
  refine .bind (.require rfl) fun _ _ => .bind (.require rfl) fun _ _ => .bind (.require rfl)
    fun _ _ => ?_
  split
  · exact .bind (.require rfl) fun _ _ => .ok _
  · split
    · exact .error rfl
    · split
      · exact .bind (.require rfl) fun _ _ => .error rfl
      · split
        · exact .error rfl
        · rename_i hactive
          refine .bind (indexSafe_checkFinishingAdmission db scope kind) fun _ _ => ?_
          split
          · exact .error rfl
          · exact .bind (.of_exists (exists_put_dispatch hactive)) fun _ _ => .ok _

/-- What `requeue_recovery_dispatch` has checked and written when it returns. -/
theorem requeueRecoveryDispatch_ok {id : String} {automatic : Bool}
    (h : requeueRecoveryDispatch id kind scope automatic now db = .ok db') :
    ∃ d o, db.getDispatch id = some d ∧ db.getOperation id = some o ∧
      requeueEligible kind scope d o = true ∧
      ((o.finishing = true ∧ ∃ retry db₁,
          requeueRetry automatic now o.refs.retry = .ok retry ∧
          db.putOperation id { o with refs := o.refs.withRetry retry } = .ok db₁ ∧
          db₁.putDispatch id { d with status := .pending, updatedAt := now } = .ok db') ∨
        (o.finishing = false ∧
          db.putDispatch id { d with status := .pending, updatedAt := now } = .ok db')) := by
  rw [requeueRecoveryDispatch] at h
  simp only [check_bind_eq_ok] at h
  obtain ⟨-, -, -, h⟩ := h
  split at h
  · rename_i d o hd ho
    obtain ⟨heligible, h⟩ := check_bind_eq_ok.mp h
    refine ⟨d, o, hd, ho, require_eq_ok.mp heligible, ?_⟩
    split at h
    · rename_i hf
      obtain ⟨retry, hretry, h⟩ := bind_eq_ok.mp h
      obtain ⟨-, h⟩ := check_bind_eq_ok.mp h
      obtain ⟨db₁, hput, h⟩ := bind_eq_ok.mp h
      exact .inl ⟨hf, retry, db₁, hretry, hput, h⟩
    · rename_i hf
      exact .inr ⟨Bool.eq_false_iff.mpr hf, h⟩
  · cases h

/-- The dispatch and the operation of a requeue, field by field. -/
theorem requeueEligible_iff {o : Operation} : requeueEligible kind scope d o = true ↔
      d.status = .recoveryRequired ∧ o.nonterminal = true ∧
        (o.status = .recoveryRequired ∨ o.finishing = true) ∧ d.kind = kind ∧ d.scope = scope ∧
        o.kind = kind ∧ o.scope = scope := by
  simp only [requeueEligible, Bool.and_eq_true, Bool.or_eq_true, beq_iff_eq]
  tauto

theorem indexSafe_requeueRetry (automatic : Bool) (now : Timestamp) (retry : FinishingRetry) :
    IndexSafe (requeueRetry automatic now retry) := by
  rw [requeueRetry]
  split
  · split
    · split
      · exact .ok _
      · exact .error rfl
    · exact .error rfl
  · exact .ok _

/-- No index rejects a requeue: the dispatch was active already. -/
theorem indexSafe_requeueRecoveryDispatch (id kind scope : String) (automatic : Bool)
    (now : Timestamp) (db : Database) :
    IndexSafe (requeueRecoveryDispatch id kind scope automatic now db) := by
  rw [requeueRecoveryDispatch]
  refine .bind (.require rfl) fun _ _ => .bind (.require rfl) fun _ _ => .bind (.require rfl)
    fun _ _ => ?_
  split
  · rename_i d o hd ho
    refine .bind (.require rfl) fun _ heligible => ?_
    have heligible := requeueEligible_iff.mp (require_eq_ok.mp heligible)
    have hactive : d.status.active = true := by
      rw [heligible.1]
      rfl
    split
    · refine .bind (indexSafe_requeueRetry _ _ _) fun retry _ =>
        .bind (indexSafe_checkRefs _) fun _ _ => .bind (.of_exists ?_) fun db₁ hput => ?_
      · exact Amends.exists_put (o := o) ⟨heligible.2.1, rfl, rfl, rfl⟩ ho
      · obtain ⟨-, -, rfl⟩ := Database.putOperation_eq_ok.mp hput
        refine .of_exists (exists_putDispatch_of_active (d := d) ?_ hactive rfl rfl)
        exact hd
    · exact .of_exists (exists_putDispatch_of_active hd hactive rfl rfl)
  · exact .error rfl

/-- What `mark_operation_finishing` has checked and written when it returns. -/
theorem markOperationFinishing_ok (h : markOperationFinishing id db = .ok db') :
    ∃ o db₁, db.getOperation id = some o ∧ (o.kind = "app.deploy" ∨ o.kind = "app.enable") ∧
      db.putOperation id { o with finishing := true, cleanupState := "pending" } = .ok db₁ ∧
      ((∃ d, db.getDispatch id = some d ∧
          db₁.putDispatch id { d with finishing := true } = .ok db') ∨
        (db.getDispatch id = none ∧ db' = db₁)) := by
  rw [markOperationFinishing] at h
  split at h
  · rename_i o ho
    split at h
    · rename_i hkind
      obtain ⟨db₁, hput, h⟩ := bind_eq_ok.mp h
      refine ⟨o, db₁, ho, ?_, hput, ?_⟩
      · simpa only [Bool.or_eq_true, beq_iff_eq] using hkind
      · have hsame : db₁.getDispatch id = db.getDispatch id := by
          obtain ⟨-, -, rfl⟩ := Database.putOperation_eq_ok.mp hput
          rfl
        rw [hsame] at h
        split at h
        · rename_i d hd
          exact .inl ⟨d, hd, h⟩
        · rename_i hd
          exact .inr ⟨hd, (Except.ok.inj h).symm⟩
    · cases h
  · cases h

end Controller
end OpenstackPlatform
