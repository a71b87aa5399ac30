import OpenstackPlatform.Controller.AsyncOperations

/-!
# What a call leaves alone

The executor's proofs follow one item while other threads write other rows.  Two facts about every
call make that possible: a call writes only the dispatch and the operation it is about
(`Call.frame`), and only the three functions of the dispatch queue write a dispatch's status
(`Call.status_of_run`).

`ServiceStep` are the steps of a journal run that also keep the retry record where it belongs:
the services never write it, and replace the refs of an accepted operation only by merging.
`RetryRecorded` is what such runs keep of every operation's retry record.
-/

namespace OpenstackPlatform
namespace Controller

open Library

namespace Call

/-- The operation ID a call is about. -/
def target : Call → Option OperationId
  | enqueueOperationDispatch id _ _ _ | requeueRecoveryDispatch id _ _ _ _
  | setOperationDispatchStatus id _ _ | renewOperationDeadline id _ | checkpointOperation id _
  | markOperationFinishing id | markRecoveryRequired id _ | recordFinishingFailure id
  | markSucceeded id _ | markFailed id _ | schedule id _ => some id
  | beginOperation r => some r.operationId
  | claimIdempotencyRequest _ _ | putApplication _ _ | retireSlug _ _ => none

/-- The functions that write the status of a dispatch. -/
def writesStatus : Call → Bool
  | enqueueOperationDispatch _ _ _ _ | requeueRecoveryDispatch _ _ _ _ _
  | setOperationDispatchStatus _ _ _ => true
  | _ => false

variable {db db' : Database}

/-- Two databases have the same dispatch and operation under an ID. -/
def SameRows (db db' : Database) (k : OperationId) : Prop :=
  db'.getDispatch k = db.getDispatch k ∧ db'.getOperation k = db.getOperation k

variable {id k : OperationId}

theorem sameRows_putOperation {o : Operation} (hk : k ≠ id) (h : db.putOperation id o = .ok db') :
    SameRows db db' k :=
  ⟨(Database.same_putOperation h).getDispatch k,
    (Database.getOperation_put h k).trans (if_neg hk)⟩

theorem sameRows_putDispatch {d : OperationDispatch} (hk : k ≠ id)
    (h : db.putDispatch id d = .ok db') : SameRows db db' k :=
  ⟨(Database.getDispatch_put h k).trans (if_neg hk),
    (Database.same_putDispatch h).getOperation k⟩

theorem SameRows.trans {db₁ : Database} (h : SameRows db db₁ k) (h' : SameRows db₁ db' k) :
    SameRows db db' k :=
  ⟨h'.1.trans h.1, h'.2.trans h.2⟩

variable {status : OperationStatus} {phase cleanupState : Option String}

theorem sameRows_finish (hk : k ≠ id)
    (h : finishOperation id status phase cleanupState db = .ok db') : SameRows db db' k := by
  obtain ⟨o, -, -, hput⟩ := finishOperation_ok h
  exact sameRows_putOperation hk hput

/-- The result of `enqueue_operation_dispatch` behind a call. -/
theorem enqueue_of_run {id kind scope : String} {now : Timestamp}
    (h : (enqueueOperationDispatch id kind scope now).run db = .ok db') :
    ∃ created, Controller.enqueueOperationDispatch id kind scope now db = .ok (created, db') := by
  simp only [run] at h
  cases henq : Controller.enqueueOperationDispatch id kind scope now db with
  | error e => simp [henq, Except.map] at h
  | ok result =>
    rw [henq] at h
    cases h
    exact ⟨result.1, rfl⟩

/-- **A call writes only the rows it is about.** -/
theorem frame (call : Call) (h : call.run db = .ok db') (hk : call.target ≠ some k) :
    SameRows db db' k := by
  cases call with
  | claimIdempotencyRequest id fp =>
    obtain rfl | ⟨-, rfl⟩ := claimIdempotencyRequest_ok h
    · exact ⟨rfl, rfl⟩
    · exact ⟨rfl, rfl⟩
  | enqueueOperationDispatch id kind scope now =>
    have hk : k ≠ id := fun he => hk (congrArg some he.symm)
    obtain ⟨created, h⟩ := enqueue_of_run h
    obtain ⟨-, rfl, -⟩ | ⟨-, -, -, -, -, -, -, -, request, db₁, -, hput, rfl⟩ :=
      enqueueOperationDispatch_ok h
    · exact ⟨rfl, rfl⟩
    · exact (sameRows_putDispatch hk hput).trans ⟨rfl, rfl⟩
  | requeueRecoveryDispatch id kind scope automatic now =>
    have hk : k ≠ id := fun he => hk (congrArg some he.symm)
    obtain ⟨d, o, -, -, -, ⟨-, retry, db₁, -, hput, hput'⟩ | ⟨-, hput'⟩⟩ :=
      requeueRecoveryDispatch_ok h
    · exact (sameRows_putOperation hk hput).trans (sameRows_putDispatch hk hput')
    · exact sameRows_putDispatch hk hput'
  | setOperationDispatchStatus id status now =>
    have hk : k ≠ id := fun he => hk (congrArg some he.symm)
    obtain ⟨d, -, hput⟩ := setOperationDispatchStatus_ok h
    exact sameRows_putDispatch hk hput
  | beginOperation r =>
    have hk : k ≠ r.operationId := fun he => hk (congrArg some he.symm)
    obtain ⟨-, -, -, -, hput⟩ := beginOperation_ok h
    exact sameRows_putOperation hk hput
  | renewOperationDeadline id deadlineAt =>
    have hk : k ≠ id := fun he => hk (congrArg some he.symm)
    obtain ⟨o, -, -, hput⟩ := renewOperationDeadline_ok h
    exact sameRows_putOperation hk hput
  | checkpointOperation id c =>
    have hk : k ≠ id := fun he => hk (congrArg some he.symm)
    obtain ⟨o, -, -, hput⟩ := checkpointOperation_ok h
    exact sameRows_putOperation hk hput
  | markOperationFinishing id =>
    have hk : k ≠ id := fun he => hk (congrArg some he.symm)
    obtain ⟨o, db₁, -, -, hput, ⟨d, -, hput'⟩ | ⟨-, rfl⟩⟩ := markOperationFinishing_ok h
    · exact (sameRows_putOperation hk hput).trans (sameRows_putDispatch hk hput')
    · exact sameRows_putOperation hk hput
  | markRecoveryRequired id phase =>
    exact sameRows_finish (fun he => hk (congrArg some he.symm)) h
  | recordFinishingFailure id =>
    have hk : k ≠ id := fun he => hk (congrArg some he.symm)
    obtain ⟨o, -, -, -, hput⟩ := recordFinishingFailure_ok h
    exact sameRows_putOperation hk hput
  | markSucceeded id cleanup => exact sameRows_finish (fun he => hk (congrArg some he.symm)) h
  | markFailed id cleanup =>
    exact sameRows_finish (fun he => hk (congrArg some he.symm)) (markFailed_ok h)
  | schedule id now =>
    have hk : k ≠ id := fun he => hk (congrArg some he.symm)
    obtain rfl | ⟨o, -, -, -, hput⟩ := schedule_ok h
    · exact ⟨rfl, rfl⟩
    · exact sameRows_putOperation hk hput
  | putApplication id a =>
    cases h
    exact ⟨rfl, rfl⟩
  | retireSlug slug id =>
    cases h
    exact ⟨rfl, rfl⟩

/-- Two databases have the same application tables. -/
def SameApplications (db db' : Database) : Prop :=
  db'.applications = db.applications ∧ db'.tombstones = db.tombstones

theorem sameApplications_putOperation {o : Operation} (h : db.putOperation id o = .ok db') :
    SameApplications db db' :=
  ⟨(Database.same_putOperation h).applications, (Database.same_putOperation h).tombstones⟩

theorem sameApplications_putDispatch {d : OperationDispatch} (h : db.putDispatch id d = .ok db') :
    SameApplications db db' :=
  ⟨(Database.same_putDispatch h).applications, (Database.same_putDispatch h).tombstones⟩

theorem SameApplications.trans {db₁ : Database} (h : SameApplications db db₁)
    (h' : SameApplications db₁ db') : SameApplications db db' :=
  ⟨h'.1.trans h.1, h'.2.trans h.2⟩

theorem sameApplications_finish (h : finishOperation id status phase cleanupState db = .ok db') :
    SameApplications db db' := by
  obtain ⟨o, -, -, hput⟩ := finishOperation_ok h
  exact sameApplications_putOperation hput

/-- A call about an operation leaves the application tables alone. -/
theorem applications_of_run (call : Call) (h : call.run db = .ok db')
    (htarget : call.target = some id) : SameApplications db db' := by
  cases call with
  | claimIdempotencyRequest => exact absurd htarget (by simp [target])
  | enqueueOperationDispatch id kind scope now =>
    obtain ⟨created, h⟩ := enqueue_of_run h
    obtain ⟨-, rfl, -⟩ | ⟨-, -, -, -, -, -, -, -, request, db₁, -, hput, rfl⟩ :=
      enqueueOperationDispatch_ok h
    · exact ⟨rfl, rfl⟩
    · exact (sameApplications_putDispatch hput).trans ⟨rfl, rfl⟩
  | requeueRecoveryDispatch id kind scope automatic now =>
    obtain ⟨d, o, -, -, -, ⟨-, retry, db₁, -, hput, hput'⟩ | ⟨-, hput'⟩⟩ :=
      requeueRecoveryDispatch_ok h
    · exact (sameApplications_putOperation hput).trans (sameApplications_putDispatch hput')
    · exact sameApplications_putDispatch hput'
  | setOperationDispatchStatus id status now =>
    obtain ⟨d, -, hput⟩ := setOperationDispatchStatus_ok h
    exact sameApplications_putDispatch hput
  | beginOperation r =>
    obtain ⟨-, -, -, -, hput⟩ := beginOperation_ok h
    exact sameApplications_putOperation hput
  | renewOperationDeadline id deadlineAt =>
    obtain ⟨o, -, -, hput⟩ := renewOperationDeadline_ok h
    exact sameApplications_putOperation hput
  | checkpointOperation id c =>
    obtain ⟨o, -, -, hput⟩ := checkpointOperation_ok h
    exact sameApplications_putOperation hput
  | markOperationFinishing id =>
    obtain ⟨o, db₁, -, -, hput, ⟨d, -, hput'⟩ | ⟨-, rfl⟩⟩ := markOperationFinishing_ok h
    · exact (sameApplications_putOperation hput).trans (sameApplications_putDispatch hput')
    · exact sameApplications_putOperation hput
  | markRecoveryRequired id phase => exact sameApplications_finish h
  | recordFinishingFailure id =>
    obtain ⟨o, -, -, -, hput⟩ := recordFinishingFailure_ok h
    exact sameApplications_putOperation hput
  | markSucceeded id cleanup => exact sameApplications_finish h
  | markFailed id cleanup => exact sameApplications_finish (markFailed_ok h)
  | schedule id now =>
    obtain rfl | ⟨o, -, -, -, hput⟩ := schedule_ok h
    · exact ⟨rfl, rfl⟩
    · exact sameApplications_putOperation hput
  | putApplication => exact absurd htarget (by simp [target])
  | retireSlug => exact absurd htarget (by simp [target])

/-- What a write of the other functions keeps of a dispatch. -/
def SameStatus (db db' : Database) : Prop :=
  ∀ k, (db'.getDispatch k).map OperationDispatch.status =
    (db.getDispatch k).map OperationDispatch.status

/-- No dispatch disappears while the statuses stay. -/
theorem present_of_status (h : SameStatus db db') (k : OperationId)
    (hk : (db.getDispatch k).isSome = true) : (db'.getDispatch k).isSome = true := by
  have hsome := congrArg Option.isSome (h k)
  rw [Option.isSome_map, Option.isSome_map] at hsome
  rwa [hsome]

theorem sameStatus_putOperation {o : Operation} (h : db.putOperation id o = .ok db') :
    SameStatus db db' := fun k => by
  rw [(Database.same_putOperation h).getDispatch]

theorem sameStatus_finish (h : finishOperation id status phase cleanupState db = .ok db') :
    SameStatus db db' := by
  obtain ⟨o, -, -, hput⟩ := finishOperation_ok h
  exact sameStatus_putOperation hput

/-- **Only the functions of the dispatch queue write a dispatch's status.** -/
theorem status_of_run (call : Call) (hcall : call.writesStatus = false)
    (h : call.run db = .ok db') : SameStatus db db' := by
  cases call with
  | claimIdempotencyRequest id fp =>
    obtain rfl | ⟨-, rfl⟩ := claimIdempotencyRequest_ok h
    · exact fun _ => rfl
    · exact fun _ => rfl
  | enqueueOperationDispatch => exact absurd hcall (by simp [writesStatus])
  | requeueRecoveryDispatch => exact absurd hcall (by simp [writesStatus])
  | setOperationDispatchStatus => exact absurd hcall (by simp [writesStatus])
  | beginOperation r =>
    obtain ⟨-, -, -, -, hput⟩ := beginOperation_ok h
    exact sameStatus_putOperation hput
  | renewOperationDeadline id deadlineAt =>
    obtain ⟨o, -, -, hput⟩ := renewOperationDeadline_ok h
    exact sameStatus_putOperation hput
  | checkpointOperation id c =>
    obtain ⟨o, -, -, hput⟩ := checkpointOperation_ok h
    exact sameStatus_putOperation hput
  | markOperationFinishing id =>
    obtain ⟨o, db₁, -, -, hput, ⟨d, hd, hput'⟩ | ⟨-, rfl⟩⟩ := markOperationFinishing_ok h
    · intro k
      rw [Database.getDispatch_put hput', (Database.same_putOperation hput).getDispatch]
      split
      · rename_i hk
        rw [hk, hd]
        rfl
      · rfl
    · exact sameStatus_putOperation hput
  | markRecoveryRequired id phase => exact sameStatus_finish h
  | recordFinishingFailure id =>
    obtain ⟨o, -, -, -, hput⟩ := recordFinishingFailure_ok h
    exact sameStatus_putOperation hput
  | markSucceeded id cleanup => exact sameStatus_finish h
  | markFailed id cleanup => exact sameStatus_finish (markFailed_ok h)
  | schedule id now =>
    obtain rfl | ⟨o, -, -, -, hput⟩ := schedule_ok h
    · exact fun _ => rfl
    · exact sameStatus_putOperation hput
  | putApplication id a =>
    cases h
    exact fun _ => rfl
  | retireSlug slug id =>
    cases h
    exact fun _ => rfl

end Call

/-! ## The retry record -/

/-- What is known of an operation's retry record: only an accepted operation has one, at most five
automatic attempts are recorded, and another one is planned only after fewer. -/
structure RetryRecorded (o : Operation) : Prop where
  foreground : o.finishing = false → o.refs.finishingRetry = none
  bound : o.refs.retry.attempts ≤ retryDelays.length
  next : o.refs.retry.nextAt.isSome = true → o.refs.retry.attempts < retryDelays.length

/-- The refs that a call of the services writes leave the retry record to the journal, and an
automatic retry is one of an accepted operation. -/
def Call.refsIssued (db : Database) : Call → Bool
  | .beginOperation r => r.refs.finishingRetry.isNone
  | .checkpointOperation id c => Controller.refsIssued db id c
  | .requeueRecoveryDispatch id _ _ automatic _ => retryIssued db id automatic
  | _ => true

/-- A checkpoint keeps the number of attempts that the refs record: it merges, it has no refs, or
its refs carry the record; or there is nothing to keep. -/
def Checkpoint.carriesRetries (c : Checkpoint) (row : Refs) : Bool :=
  c.mergeRefs || c.refs.all fun refs => refs.finishingRetry.isSome || row.retry.attempts == 0

/-- No checkpoint drops the attempts that its operation has recorded. -/
def Call.carriesRetries (db : Database) : Call → Bool
  | .checkpointOperation id c => (db.getOperation id).all fun o => c.carriesRetries o.refs
  | _ => true

/-- The steps of a journal run in which the services leave the retry record alone. -/
def ServiceStep : Database → Call → Database → Prop :=
  restrict JournalStep fun db call => call.refsIssued db = true

/-- Every operation's retry record is as it should be. -/
def RetriesRecorded (db : Database) : Prop :=
  ∀ id o, db.getOperation id = some o → RetryRecorded o

namespace RetryRecorded

variable {o : Operation}

/-- Refs without a record are those of no attempt. -/
theorem of_none (h : o.refs.finishingRetry = none) : RetryRecorded o := by
  have hretry : o.refs.retry = ⟨0, none⟩ := by
    rw [Refs.retry, h]
    rfl
  refine ⟨fun _ => h, ?_, ?_⟩
  · rw [hretry]
    exact Nat.zero_le _
  · rw [hretry]
    intro hnext
    cases hnext

/-- A write that keeps the refs and the finishing flag keeps the record. -/
theorem of_refs {o' : Operation} (h : RetryRecorded o) (hrefs : o'.refs = o.refs)
    (hfin : o'.finishing = o.finishing ∨ o.refs.finishingRetry = none) : RetryRecorded o' := by
  refine ⟨fun hf => ?_, ?_, ?_⟩
  · rw [hrefs]
    obtain hfin | hnone := hfin
    · exact h.foreground (hfin ▸ hf)
    · exact hnone
  · rw [hrefs]
    exact h.bound
  · rw [hrefs]
    exact h.next

/-- The record that `schedule` writes. -/
theorem scheduled (h : RetryRecorded o) (hfin : o.finishing = true) (now : Timestamp) :
    RetryRecorded (scheduledRow now o) := by
  refine ⟨fun hf => absurd (hfin.symm.trans hf) (by simp), h.bound, ?_⟩
  intro hnext
  have hnext : (scheduledRetry now o.refs.retry).nextAt.isSome = true := hnext
  rw [scheduledRetry, Option.isSome_map] at hnext
  have hnext : o.refs.retry.attempts < retryDelays.length := by simpa using hnext
  exact hnext

/-- The record that a requeue writes. -/
theorem requeued (h : RetryRecorded o) (hfin : o.finishing = true) {automatic : Bool}
    {now : Timestamp} {retry : FinishingRetry}
    (hretry : requeueRetry automatic now o.refs.retry = .ok retry) :
    RetryRecorded { o with refs := o.refs.withRetry retry } := by
  have hrecord : retry.nextAt = none ∧ retry.attempts ≤ retryDelays.length := by
    rw [requeueRetry] at hretry
    split at hretry
    · split at hretry
      · rename_i nextAt hnext
        split at hretry
        · cases hretry
          exact ⟨rfl, h.next (by rw [hnext]; rfl)⟩
        · cases hretry
      · cases hretry
    · cases hretry
      exact ⟨rfl, h.bound⟩
  refine ⟨fun hf => absurd (hfin.symm.trans hf) (by simp), hrecord.2, ?_⟩
  intro hnext
  have hnext : retry.nextAt.isSome = true := hnext
  rw [hrecord.1] at hnext
  cases hnext

end RetryRecorded

namespace RetriesRecorded

variable {db db' : Database}

variable {id : OperationId}

/-- A write of one operation with a good record keeps the others. -/
theorem put (h : RetriesRecorded db) {o : Operation} (hput : db.putOperation id o = .ok db')
    (ho : RetryRecorded o) : RetriesRecorded db' := by
  intro k p hp
  rw [Database.getOperation_put hput] at hp
  split at hp
  · cases hp
    exact ho
  · exact h k p hp

theorem putDispatch (h : RetriesRecorded db) {d : OperationDispatch}
    (hput : db.putDispatch id d = .ok db') : RetriesRecorded db' := by
  intro k p hp
  rw [(Database.same_putDispatch hput).getOperation] at hp
  exact h k p hp

theorem finish (h : RetriesRecorded db) {id : OperationId} {status : OperationStatus}
    {phase cleanupState : Option String}
    (hok : finishOperation id status phase cleanupState db = .ok db') : RetriesRecorded db' := by
  obtain ⟨o, ho, -, hput⟩ := finishOperation_ok hok
  exact h.put hput ((h id o ho).of_refs rfl (.inl rfl))

/-- A checkpoint of the services leaves the retry record as it is, or its refs are stored in the
place of the old ones and have none. -/
theorem checkpoint_finishingRetry {o : Operation} (ho : db.getOperation id = some o)
    {c : Checkpoint} (hrefs : refsIssued db id c = true) :
    (c.apply o).refs.finishingRetry = o.refs.finishingRetry ∨
      (c.apply o).refs.finishingRetry = none ∧ c.mergeRefs = false ∧
        ∃ refs, c.refs = some refs ∧ refs.finishingRetry = none := by
  rw [refsIssued] at hrefs
  cases hc : c.refs with
  | none =>
    left
    simp only [Checkpoint.apply, Checkpoint.storedRefs, hc, Option.map_none, Option.getD_none]
  | some refs =>
    simp only [hc, ho, Option.all_some, Option.any_some, Bool.or_eq_true,
      Option.isNone_iff_eq_none, beq_iff_eq] at hrefs
    simp only [Checkpoint.apply, Checkpoint.storedRefs, hc, Option.map_some, Option.getD_some]
    cases hm : c.mergeRefs with
    | true =>
      left
      rw [if_pos rfl, Refs.merge]
      obtain hnone | hsame := hrefs
      · rw [hnone, Option.none_or]
      · rw [hsame, Option.or_self]
    | false =>
      rw [if_neg Bool.false_ne_true]
      obtain hnone | hsame := hrefs
      · exact .inr ⟨hnone, rfl, refs, rfl, hnone⟩
      · exact .inl hsame

/-- A checkpoint of the services keeps what is known of the record. -/
theorem checkpoint {o : Operation} (h : RetryRecorded o) (ho : db.getOperation id = some o)
    {c : Checkpoint} (hrefs : refsIssued db id c = true) : RetryRecorded (c.apply o) := by
  obtain hsame | ⟨hnone, -⟩ := checkpoint_finishingRetry ho hrefs
  · have hretry : (c.apply o).refs.retry = o.refs.retry := by
      rw [Refs.retry, hsame, Refs.retry]
    refine ⟨fun hf => ?_, ?_, ?_⟩
    · rw [hsame]
      exact h.foreground hf
    · rw [hretry]
      exact h.bound
    · rw [hretry]
      exact h.next
  · exact .of_none hnone

/-- A checkpoint that carries the attempts leaves their number as it is. -/
theorem checkpoint_attempts {o : Operation} (ho : db.getOperation id = some o) {c : Checkpoint}
    (hrefs : refsIssued db id c = true) (hcarries : c.carriesRetries o.refs = true) :
    (c.apply o).refs.retry.attempts = o.refs.retry.attempts := by
  obtain hsame | ⟨hnone, hmerge, refs, hc, hrefs⟩ := checkpoint_finishingRetry ho hrefs
  · rw [Refs.retry, hsame, Refs.retry]
  · rw [Checkpoint.carriesRetries, hmerge, hc, Option.all_some, hrefs, Bool.false_or,
      Option.isSome_none, Bool.false_or, beq_iff_eq] at hcarries
    rw [Refs.retry, hnone, hcarries]
    rfl

/-- **A step of the services keeps every operation's retry record.** -/
theorem step (h : RetriesRecorded db) {call : Call} (hstep : ServiceStep db call db') :
    RetriesRecorded db' := by
  obtain ⟨⟨hissued, hok | ⟨e, -, rfl⟩⟩, hrefs⟩ := hstep
  · cases call with
    | claimIdempotencyRequest id fp =>
      obtain rfl | ⟨-, rfl⟩ := claimIdempotencyRequest_ok hok
      · exact h
      · exact h
    | enqueueOperationDispatch id kind scope now =>
      obtain ⟨created, hok⟩ := Call.enqueue_of_run hok
      obtain ⟨-, rfl, -⟩ | ⟨-, -, -, -, -, -, -, -, request, db₁, -, hput, rfl⟩ :=
        enqueueOperationDispatch_ok hok
      · exact h
      · exact fun k p hp => h.putDispatch hput k p hp
    | requeueRecoveryDispatch id kind scope automatic now =>
      obtain ⟨d, o, -, ho, -, ⟨hf, retry, db₁, hretry, hput, hput'⟩ | ⟨-, hput'⟩⟩ :=
        requeueRecoveryDispatch_ok hok
      · exact (h.put hput ((h id o ho).requeued hf hretry)).putDispatch hput'
      · exact h.putDispatch hput'
    | setOperationDispatchStatus id status now =>
      obtain ⟨d, -, hput⟩ := setOperationDispatchStatus_ok hok
      exact h.putDispatch hput
    | beginOperation r =>
      obtain ⟨-, -, -, -, hput⟩ := beginOperation_ok hok
      exact h.put hput (.of_none (Option.isNone_iff_eq_none.mp hrefs))
    | renewOperationDeadline id deadlineAt =>
      obtain ⟨o, ho, -, hput⟩ := renewOperationDeadline_ok hok
      exact h.put hput ((h id o ho).of_refs rfl (.inl rfl))
    | checkpointOperation id c =>
      obtain ⟨o, ho, -, hput⟩ := checkpointOperation_ok hok
      exact h.put hput (checkpoint (h id o ho) ho hrefs)
    | markOperationFinishing id =>
      obtain ⟨o, db₁, ho, -, hput, hdispatch⟩ := markOperationFinishing_ok hok
      have hnone : o.refs.finishingRetry = none :=
        (h id o ho).foreground (Change.foreground_of_finishingIssued hissued ho).2.1
      have hput₁ : RetriesRecorded db₁ := h.put hput (.of_none hnone)
      obtain ⟨d, -, hput'⟩ | ⟨-, rfl⟩ := hdispatch
      · exact hput₁.putDispatch hput'
      · exact hput₁
    | markRecoveryRequired id phase => exact h.finish hok
    | recordFinishingFailure id =>
      obtain ⟨o, ho, -, -, hput⟩ := recordFinishingFailure_ok hok
      exact h.put hput ((h id o ho).of_refs rfl (.inl rfl))
    | markSucceeded id cleanup => exact h.finish hok
    | markFailed id cleanup => exact h.finish (markFailed_ok hok)
    | schedule id now =>
      obtain rfl | ⟨o, ho, hf, -, hput⟩ := schedule_ok hok
      · exact h
      · exact h.put hput ((h id o ho).scheduled hf now)
    | putApplication id a =>
      cases hok
      exact h
    | retireSlug slug id =>
      cases hok
      exact h
  · exact h

end RetriesRecorded

/-! ## The attempts counter -/

/-- The automatic attempts that are recorded for an operation. -/
def Database.retryCount (db : Database) (id : OperationId) : Nat :=
  match db.getOperation id with
  | some o => o.refs.retry.attempts
  | none => 0

/-- The call is an automatic requeue of this operation. -/
def Call.retries (id : OperationId) : Call → Bool
  | .requeueRecoveryDispatch k _ _ automatic _ => automatic && k == id
  | _ => false

section Attempts

variable {db db' : Database}

variable {id : OperationId}

theorem retryCount_of_getOperation {o : Operation} (ho : db.getOperation id = some o) :
    db.retryCount id = o.refs.retry.attempts := by
  rw [Database.retryCount, ho]

/-- A write of an operation that keeps its counter keeps every counter. -/
theorem retryCount_put {o : Operation} (hput : db.putOperation id o = .ok db')
    (hsame : o.refs.retry.attempts = db.retryCount id) (k : OperationId) :
    db'.retryCount k = db.retryCount k := by
  rw [Database.retryCount, Database.getOperation_put hput]
  split
  · rename_i p hp
    split at hp
    · rename_i hk
      cases hp
      rw [hk, hsame]
    · rw [retryCount_of_getOperation hp]
  · rename_i hp
    split at hp
    · cases hp
    · rw [Database.retryCount, hp]

theorem retryCount_putDispatch {d : OperationDispatch} (hput : db.putDispatch id d = .ok db')
    (k : OperationId) : db'.retryCount k = db.retryCount k := by
  rw [Database.retryCount, (Database.same_putDispatch hput).getOperation, Database.retryCount]

theorem retryCount_finish {status : OperationStatus} {phase cleanupState : Option String}
    (h : finishOperation id status phase cleanupState db = .ok db') (k : OperationId) :
    db'.retryCount k = db.retryCount k := by
  obtain ⟨o, ho, -, hput⟩ := finishOperation_ok h
  exact retryCount_put hput (retryCount_of_getOperation ho).symm k

/-- The counter after a requeue of an accepted operation. -/
theorem requeueRetry_attempts {automatic : Bool} {now : Timestamp} {retry retry' : FinishingRetry}
    (h : requeueRetry automatic now retry = .ok retry') :
    retry'.attempts = retry.attempts + if automatic then 1 else 0 := by
  rw [requeueRetry] at h
  split at h
  · rename_i hauto
    split at h
    · split at h
      · cases h
        rw [if_pos hauto]
      · cases h
    · cases h
  · rename_i hauto
    cases h
    rw [if_neg hauto, Nat.add_zero]

/-- A requeue adds one to the counter of its own operation when it is automatic. -/
theorem retryCount_requeue {id kind scope : String} {automatic : Bool} {now : Timestamp}
    (hissued : retryIssued db id automatic = true)
    (hok : requeueRecoveryDispatch id kind scope automatic now db = .ok db') (k : OperationId) :
    db'.retryCount k = db.retryCount k + if automatic && id == k then 1 else 0 := by
  obtain ⟨d, o, -, ho, -, ⟨-, retry, db₁, hretry, hput, hput'⟩ | ⟨hf, hput'⟩⟩ :=
    requeueRecoveryDispatch_ok hok
  · rw [retryCount_putDispatch hput']
    by_cases hk : id = k
    · subst hk
      have ho₁ := (Database.getOperation_put hput id).trans (if_pos rfl)
      rw [retryCount_of_getOperation ho₁, retryCount_of_getOperation ho, beq_self_eq_true,
        Bool.and_true]
      exact requeueRetry_attempts hretry
    · have hsame : db₁.getOperation k = db.getOperation k :=
        (Database.getOperation_put hput k).trans (if_neg (Ne.symm hk))
      rw [beq_false_of_ne hk, Bool.and_false, if_neg Bool.false_ne_true, Nat.add_zero,
        Database.retryCount, hsame, Database.retryCount]
  · have hmanual : automatic = false := by
      simp only [retryIssued, ho, hf, Bool.or_false, Bool.not_eq_true'] at hissued
      exact hissued
    rw [retryCount_putDispatch hput', hmanual, Bool.false_and, if_neg Bool.false_ne_true,
      Nat.add_zero]

/-- **Only an automatic requeue changes the attempts counter**, and it adds one, where no checkpoint
drops what is recorded. -/
theorem Call.retryCount_of_run (call : Call) (hrefs : call.refsIssued db = true)
    (hcarries : call.carriesRetries db = true) (hok : call.run db = .ok db') (k : OperationId) :
    db'.retryCount k = db.retryCount k + if call.retries k then 1 else 0 := by
  cases call with
  | requeueRecoveryDispatch id kind scope automatic now => exact retryCount_requeue hrefs hok k
  | claimIdempotencyRequest id fp =>
    obtain rfl | ⟨-, rfl⟩ := claimIdempotencyRequest_ok hok
    · rfl
    · rfl
  | enqueueOperationDispatch id kind scope now =>
    obtain ⟨created, hok⟩ := Call.enqueue_of_run hok
    obtain ⟨-, rfl, -⟩ | ⟨-, -, -, -, -, -, -, -, request, db₁, -, hput, rfl⟩ :=
      enqueueOperationDispatch_ok hok
    · rfl
    · exact retryCount_putDispatch hput k
  | setOperationDispatchStatus id status now =>
    obtain ⟨d, -, hput⟩ := setOperationDispatchStatus_ok hok
    exact retryCount_putDispatch hput k
  | beginOperation r =>
    obtain ⟨-, -, -, hfresh, hput⟩ := beginOperation_ok hok
    refine retryCount_put hput ?_ k
    change r.refs.retry.attempts = _
    rw [Database.retryCount, hfresh, Refs.retry, Option.isNone_iff_eq_none.mp hrefs]
    rfl
  | renewOperationDeadline id deadlineAt =>
    obtain ⟨o, ho, -, hput⟩ := renewOperationDeadline_ok hok
    exact retryCount_put hput (retryCount_of_getOperation ho).symm k
  | checkpointOperation id c =>
    obtain ⟨o, ho, -, hput⟩ := checkpointOperation_ok hok
    refine retryCount_put hput ?_ k
    rw [Call.carriesRetries, ho, Option.all_some] at hcarries
    rw [retryCount_of_getOperation ho]
    exact RetriesRecorded.checkpoint_attempts ho hrefs hcarries
  | markOperationFinishing id =>
    obtain ⟨o, db₁, ho, -, hput, hdispatch⟩ := markOperationFinishing_ok hok
    have hput₁ := retryCount_put hput (retryCount_of_getOperation ho).symm k
    obtain ⟨d, -, hput'⟩ | ⟨-, rfl⟩ := hdispatch
    · exact (retryCount_putDispatch hput' k).trans hput₁
    · exact hput₁
  | markRecoveryRequired id phase => exact retryCount_finish hok k
  | recordFinishingFailure id =>
    obtain ⟨o, ho, -, -, hput⟩ := recordFinishingFailure_ok hok
    exact retryCount_put hput (retryCount_of_getOperation ho).symm k
  | markSucceeded id cleanup => exact retryCount_finish hok k
  | markFailed id cleanup => exact retryCount_finish (markFailed_ok hok) k
  | schedule id now =>
    obtain rfl | ⟨o, ho, hf, -, hput⟩ := schedule_ok hok
    · rfl
    · exact retryCount_put hput (retryCount_of_getOperation ho).symm k
  | putApplication id a =>
    cases hok
    rfl
  | retireSlug slug id =>
    cases hok
    rfl

/-- A call that is no automatic requeue keeps every counter. -/
theorem Call.retryCount_of_not_retries (call : Call) (hrefs : call.refsIssued db = true)
    (hcarries : call.carriesRetries db = true) (hok : call.run db = .ok db') {k : OperationId}
    (hretries : call.retries k = false) : db'.retryCount k = db.retryCount k := by
  rw [call.retryCount_of_run hrefs hcarries hok, hretries, if_neg Bool.false_ne_true,
    Nat.add_zero]

theorem Call.retries_of_writesStatus {call : Call} (h : call.writesStatus = false)
    (k : OperationId) : call.retries k = false := by
  cases call with
  | requeueRecoveryDispatch => exact absurd h (by simp [writesStatus])
  | _ => rfl

end Attempts

end Controller
end OpenstackPlatform
