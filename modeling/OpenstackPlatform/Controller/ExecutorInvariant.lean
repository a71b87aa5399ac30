import OpenstackPlatform.Controller.CallEffects

/-!
# What a worker keeps

What holds of the database after every event, whatever the submitted work does and wherever the
process stopped before, and what one transaction of a worker does to it.

* `DbInv`: the journal's own invariant, the retry records, and what an operation looks like while
  its dispatch waits for recovery (`Rests`).
* `Held`: what is known of an item while a worker stands at a stage of `_run` with it.
* `advance_spec`: every transaction of `_run` keeps the invariant, writes only the rows of its
  item, and leaves the item held or settled.
-/

namespace OpenstackPlatform
namespace Controller

open Library

/-! ## The database -/

/-- The status of the dispatch under an ID. -/
def Database.statusOf (db : Database) (id : OperationId) : Option DispatchStatus :=
  (db.getDispatch id).map OperationDispatch.status

/-- The dispatch under an ID is pending or running. -/
def Database.Interrupted (db : Database) (id : OperationId) : Prop :=
  ∃ status, db.statusOf id = some status ∧ status.interrupted = true

/-- What an operation looks like while its dispatch waits for recovery: a foreground operation
waits for its owner; an accepted one waits for its next attempt, or has used all of them. -/
def Rests (o : Operation) : Prop :=
  (o.finishing = false ∧ o.status = .recoveryRequired) ∨
    (o.finishing = true ∧
      ((o.status = .running ∧ o.refs.retry.nextAt.isSome = true) ∨
        (o.status = .recoveryRequired ∧ o.refs.retry.attempts = retryDelays.length)))

/-- The invariant of the database. -/
structure DbInv (db : Database) : Prop where
  inv : Inv db
  retries : RetriesRecorded db
  rests : ∀ id o, db.statusOf id = some .recoveryRequired → db.getOperation id = some o → Rests o

theorem dbInv_empty : DbInv Database.empty where
  inv := inv_empty
  retries id o h := by simp [Database.empty, Database.getOperation] at h
  rests id o _ h := by simp [Database.empty, Database.getOperation] at h

namespace DbInv

variable {db db' : Database} {id : OperationId}

/-- The dispatch of a status. -/
theorem exists_dispatch {status : DispatchStatus} (h : db.statusOf id = some status) :
    ∃ d, db.getDispatch id = some d ∧ d.status = status := by
  rw [Database.statusOf, Option.map_eq_some_iff] at h
  exact h

/-- A call about one item keeps the invariant when its operation rests if its dispatch then waits
for recovery. -/
theorem own (h : DbInv db) (call : Call) (hissued : call.issued db = true)
    (hrefs : call.refsIssued db = true) (hok : call.run db = .ok db') (htarget : call.target = some id)
    (hrest : ∀ o, db'.statusOf id = some .recoveryRequired → db'.getOperation id = some o →
      Rests o) : DbInv db' where
  inv := JournalStep.inv ⟨hissued, .inl hok⟩ h.inv
  retries := h.retries.step ⟨⟨hissued, .inl hok⟩, hrefs⟩
  rests k o hstatus ho := by
    by_cases hk : k = id
    · subst hk
      exact hrest o hstatus ho
    · have hsame : Call.SameRows db db' k := Call.frame call hok (by
        rw [htarget]
        exact fun he => hk (Option.some.inj he).symm)
      rw [Database.statusOf, hsame.1] at hstatus
      rw [hsame.2] at ho
      exact h.rests k o hstatus ho

/-- A call that writes no status and no operation that rests keeps the invariant. -/
theorem other (h : DbInv db) (call : Call) (hissued : call.issued db = true)
    (hrefs : call.refsIssued db = true) (hok : call.run db = .ok db')
    (hwrites : call.writesStatus = false)
    (htarget : ∀ k, call.target = some k → db.statusOf k ≠ some .recoveryRequired) :
    DbInv db' where
  inv := JournalStep.inv ⟨hissued, .inl hok⟩ h.inv
  retries := h.retries.step ⟨⟨hissued, .inl hok⟩, hrefs⟩
  rests k o hstatus ho := by
    have hstatus : db.statusOf k = some .recoveryRequired :=
      (Call.status_of_run call hwrites hok k).symm.trans hstatus
    have hsame := Call.frame call hok fun he => htarget k he hstatus
    rw [hsame.2] at ho
    exact h.rests k o hstatus ho

end DbInv

/-! ## One transaction of a worker -/

/-- A transaction that is attempted commits or rolls back. -/
theorem attempt_cases {db db' : Database} {x : Except Error Database} {ok p : Progress}
    {failed : Error → Progress} (h : attempt db x ok failed = (db', p)) :
    (x = .ok db' ∧ p = ok) ∨ ∃ e, x = .error e ∧ db' = db ∧ p = failed e := by
  cases x with
  | ok db₁ =>
    obtain ⟨rfl, rfl⟩ := Prod.mk.inj h
    exact .inl ⟨rfl, rfl⟩
  | error e =>
    obtain ⟨rfl, rfl⟩ := Prod.mk.inj h
    exact .inr ⟨e, rfl, rfl, rfl⟩

/-- The status of an item whose worker stands at a stage. -/
def Database.AtStage (db : Database) (id : OperationId) (stage : Stage) : Prop :=
  if stage = .taken then db.statusOf id = some .pending else db.Interrupted id

/-- What is known of an item that a worker holds. -/
structure Held (db : Database) (id : OperationId) (stage : Stage) : Prop where
  status : db.AtStage id stage
  begun : stage = .accepting ∨ stage = .rejecting →
    ∃ o, db.getOperation id = some o ∧ o.nonterminal = true
  settling : ∀ e, stage = .settling e → ∃ o, db.getOperation id = some o ∧ Rests o

/-- The stages at which nothing is known of the item beside its status. -/
def Stage.bare : Stage → Bool
  | .working | .returned | .failing | .closing _ => true
  | .taken | .accepting | .rejecting | .settling _ => false

theorem Held.of_bare {db : Database} {id : OperationId} {stage : Stage}
    (hi : db.Interrupted id) (hbare : stage.bare = true) : Held db id stage where
  status := by
    rw [Database.AtStage, if_neg (by rintro rfl; exact Bool.false_ne_true hbare)]
    exact hi
  begun h := by
    obtain rfl | rfl := h <;> cases hbare
  settling e h := by
    subst h
    cases hbare

theorem Held.interrupted {db : Database} {id : OperationId} {stage : Stage}
    (h : Held db id stage) : db.Interrupted id := by
  have hstatus := h.status
  rw [Database.AtStage] at hstatus
  split at hstatus
  · exact ⟨_, hstatus, rfl⟩
  · exact hstatus

/-- What one transaction of a worker does: it keeps the database's invariant, writes only the rows
of its item, and leaves the item held, or settled. -/
structure Advanced (db : Database) (id : OperationId) (db' : Database) (p : Progress) : Prop where
  dbInv : DbInv db'
  frame : ∀ k, k ≠ id → Call.SameRows db db' k
  applications : Call.SameApplications db db'
  retryCount : ∀ k, db'.retryCount k = db.retryCount k
  present : ∀ k, (db.getDispatch k).isSome = true → (db'.getDispatch k).isSome = true
  held : ∀ stage, p = .stage stage → stage ≠ .taken ∧ Held db' id stage
  settled : p = .leave none → db'.statusOf id = some .finished ∨
    db'.statusOf id = some .recoveryRequired

namespace Advanced

variable {db db' : Database} {id : OperationId} {p : Progress} {stage : Stage}

/-- Nothing was written and the worker goes on. -/
theorem skip (h : DbInv db) (hi : db.Interrupted id) (hbare : stage.bare = true) :
    Advanced db id db (.stage stage) where
  dbInv := h
  frame _ _ := ⟨rfl, rfl⟩
  applications := ⟨rfl, rfl⟩
  retryCount _ := rfl
  present _ h := h
  held stage' hp := by
    obtain rfl := Progress.stage.inj hp
    refine ⟨?_, .of_bare hi hbare⟩
    rintro rfl
    exact Bool.false_ne_true hbare
  settled hp := absurd hp (by simp)

/-- Nothing was written and an exception leaves the loop. -/
theorem skip_leave (h : DbInv db) (e : Error) : Advanced db id db (.leave (some e)) where
  dbInv := h
  frame _ _ := ⟨rfl, rfl⟩
  applications := ⟨rfl, rfl⟩
  retryCount _ := rfl
  present _ h := h
  held _ hp := absurd hp (by simp)
  settled hp := absurd hp (by simp)

/-- A call about the item that writes no status was made and the worker goes on. -/
theorem call (call : Call) (h : DbInv db) (hi : db.Interrupted id)
    (hissued : call.issued db = true) (hrefs : call.refsIssued db = true)
    (hcarries : call.carriesRetries db = true) (hok : call.run db = .ok db')
    (htarget : call.target = some id) (hwrites : call.writesStatus = false) (htaken : stage ≠ .taken)
    (hheld : db'.Interrupted id → Held db' id stage) :
    Advanced db id db' (.stage stage) := by
  obtain ⟨status, hstatus, hint⟩ := hi
  have hstatus' : db'.statusOf id = some status :=
    (Call.status_of_run call hwrites hok id).trans hstatus
  refine ⟨?_, ?_, Call.applications_of_run call hok htarget, ?_,
    Call.present_of_status (Call.status_of_run call hwrites hok), ?_, fun hp => absurd hp (by simp)⟩
  · refine h.own call hissued hrefs hok htarget ?_
    intro o hrecovery
    rw [hstatus'] at hrecovery
    cases hrecovery
    exact absurd hint (by simp [DispatchStatus.interrupted])
  · intro k hk
    exact Call.frame call hok (by rw [htarget]; exact fun he => hk (Option.some.inj he).symm)
  · intro k
    exact call.retryCount_of_not_retries hrefs hcarries hok
      (Call.retries_of_writesStatus hwrites k)
  · intro stage' hp
    obtain rfl := Progress.stage.inj hp
    exact ⟨htaken, hheld ⟨status, hstatus', hint⟩⟩

variable {status : DispatchStatus} {now : Timestamp}

/-- The status and the operation of an item after its status was written. -/
theorem statusOf_set (h : setOperationDispatchStatus id status now db = .ok db') :
    db'.statusOf id = some status ∧ db'.getOperation id = db.getOperation id := by
  obtain ⟨d, hd, hput⟩ := setOperationDispatchStatus_ok h
  refine ⟨?_, (Database.same_putDispatch hput).getOperation id⟩
  rw [Database.statusOf, Database.getDispatch_put hput, if_pos rfl]
  rfl

theorem retryCount_set (h : setOperationDispatchStatus id status now db = .ok db')
    (k : OperationId) : db'.retryCount k = db.retryCount k := by
  obtain ⟨d, -, hput⟩ := setOperationDispatchStatus_ok h
  exact retryCount_putDispatch hput k

theorem present_set (h : setOperationDispatchStatus id status now db = .ok db') (k : OperationId)
    (hk : (db.getDispatch k).isSome = true) : (db'.getDispatch k).isSome = true := by
  obtain ⟨d, -, hput⟩ := setOperationDispatchStatus_ok h
  rw [Database.getDispatch_put hput]
  split
  · rfl
  · exact hk

/-- The executor's write of the status of an item it holds is issued. -/
theorem statusIssued_of_interrupted (hi : db.Interrupted id)
    (hstatus : status = .finished ∨ status = .recoveryRequired)
    (hfinished : status = .finished → Call.finishable db id = true) :
    (Call.setOperationDispatchStatus id status now).issued db = true := by
  obtain ⟨old, hold, hint⟩ := hi
  obtain ⟨d, hd, rfl⟩ := DbInv.exists_dispatch hold
  have hd' : d.status = .pending ∨ d.status = .running := by
    cases hs : d.status with
    | pending => exact .inl rfl
    | running => exact .inr rfl
    | finished => rw [hs] at hint; exact absurd hint (by simp [DispatchStatus.interrupted])
    | recoveryRequired => rw [hs] at hint; exact absurd hint (by simp [DispatchStatus.interrupted])
  simp only [Call.issued, hd]
  obtain rfl | rfl := hstatus
  · simp only [Call.statusIssued, hfinished rfl, Bool.and_true, Bool.or_eq_true, beq_iff_eq]
    exact hd'
  · simp only [Call.statusIssued, Bool.or_eq_true, beq_iff_eq]
    exact .inl hd'

/-- The dispatch was settled and the worker leaves the `finally` block. -/
theorem settle {status : DispatchStatus} {now : Timestamp} {escaping : Option Error}
    (h : DbInv db) (hi : db.Interrupted id)
    (hstatus : status = .finished ∨ status = .recoveryRequired)
    (hfinished : status = .finished → Call.finishable db id = true)
    (hrest : status = .recoveryRequired → ∀ o, db.getOperation id = some o → Rests o)
    (hok : setOperationDispatchStatus id status now db = .ok db') :
    Advanced db id db' (.leave escaping) := by
  obtain ⟨hnew, hop⟩ := statusOf_set hok
  refine ⟨?_, ?_, Call.applications_of_run (.setOperationDispatchStatus id status now) hok rfl,
    retryCount_set hok, present_set hok, fun _ hp => absurd hp (by simp), fun _ => ?_⟩
  · refine h.own (.setOperationDispatchStatus id status now)
      (statusIssued_of_interrupted hi hstatus hfinished) rfl hok rfl ?_
    intro o hrecovery ho
    rw [hnew] at hrecovery
    exact hrest (Option.some.inj hrecovery) o (hop.symm.trans ho)
  · intro k hk
    exact Call.frame (.setOperationDispatchStatus id status now) hok
      fun he => hk (Option.some.inj he).symm
  · rw [hnew]
    exact hstatus.imp (congrArg some) (congrArg some)

end Advanced

variable {d : OperationDispatch}

/-- The placeholder of a held item is begun for its own dispatch. -/
theorem beginIssued_placeholder {db : Database} {id : OperationId} {phase : String}
    (hd : db.getDispatch id = some d) (hi : db.Interrupted id) :
    (Call.beginOperation (placeholder id d phase)).issued db = true := by
  obtain ⟨status, hstatus, hint⟩ := hi
  rw [Database.statusOf, hd] at hstatus
  cases hstatus
  simp only [Call.issued, Call.beginIssued, placeholder, hd, beq_self_eq_true, Bool.and_true]
  cases hs : d.status with
  | pending => rfl
  | running => rfl
  | finished => rw [hs] at hint; exact absurd hint (by simp [DispatchStatus.interrupted])
  | recoveryRequired => rw [hs] at hint; exact absurd hint (by simp [DispatchStatus.interrupted])

/-- Beginning a placeholder: admission and an unfinished operation are all that can be in its
way. -/
theorem beginOperation_placeholder (phase : String) {db : Database} {id : OperationId}
    (hinv : Inv db) (hphase : Validation.isOperationToken phase = true)
    (hd : db.getDispatch id = some d) (hop : db.getOperation id = none) :
    beginOperation (placeholder id d phase) db =
      checkFinishingAdmission db d.scope d.kind >>= fun _ =>
        match getUnfinishedOperation db d.scope with
        | some (k, o) => .error (.unfinishedOperation d.scope k o.kind)
        | none => db.putOperation id (placeholder id d phase).row := by
  obtain ⟨hid, hkind, hscope⟩ := hinv.valid id d hd
  have hrefs : checkRefs Refs.empty = .ok () := by decide +kernel
  have hdeadline : checkDeadline deadlineNow = .ok () := by decide +kernel
  have hid : checkUuid "operation_id" id = .ok () := checkUuid_eq_ok.mpr hid
  have hkind : operationToken "kind" d.kind = .ok () := require_eq_ok.mpr hkind
  have hscope : operationToken "scope" d.scope = .ok () := require_eq_ok.mpr hscope
  have hphase : operationToken "phase" phase = .ok () := require_eq_ok.mpr hphase
  have hstorage : (placeholder id d phase).checkStorage = .ok () := by
    rw [BeginOperation.checkStorage]
    split <;> rfl
  simp only [beginOperation, placeholder_operationId, placeholder_kind, placeholder_scope,
    placeholder_phase, placeholder_deadlineAt, placeholder_refs, hid, hkind, hscope, hphase,
    hdeadline, hrefs, hop, hstorage]
  rfl

/-- A worker that has begun a placeholder holds its item with a running operation. -/
theorem held_placeholder {db db' : Database} {id : OperationId} {phase : String} {stage : Stage}
    (hok : beginOperation (placeholder id d phase) db = .ok db')
    (hstage : stage = .accepting ∨ stage = .rejecting) (hi : db'.Interrupted id) :
    Held db' id stage where
  status := by
    rw [Database.AtStage, if_neg (by rintro rfl; simp at hstage)]
    exact hi
  begun _ := by
    obtain ⟨-, -, -, -, hput⟩ := beginOperation_ok hok
    exact ⟨_, (Database.getOperation_put hput id).trans (if_pos rfl), rfl⟩
  settling e h := by
    subst h
    simp at hstage

/-- A dispatch whose operation is not finishing is finished only when it does not wait for
recovery. -/
theorem finishable_of_closingStatus {db : Database} {id : OperationId}
    (hpending : ∀ o, db.getOperation id = some o → (o.finishing && o.nonterminal) = false)
    (h : closingStatus (db.getOperation id) = .finished) : Call.finishable db id = true := by
  rw [Call.finishable]
  cases ho : db.getOperation id with
  | none => rfl
  | some o =>
    rw [ho, closingStatus] at h
    split at h
    · cases h
    · rename_i hstatus
      simp only [hpending o ho, Bool.not_false, Bool.true_and, bne, hstatus]

/-- A dispatch that waits for recovery without finishing work has an operation that does. -/
theorem rests_of_closingStatus {o : Operation} (hpending : (o.finishing && o.nonterminal) = false)
    (h : closingStatus (some o) = .recoveryRequired) : Rests o := by
  rw [closingStatus] at h
  split at h
  · rename_i hstatus
    have hstatus := beq_iff_eq.mp hstatus
    refine .inl ⟨?_, hstatus⟩
    have hn : o.nonterminal = true := by
      rw [Operation.nonterminal, hstatus]
      rfl
    rw [hn, Bool.and_true] at hpending
    exact hpending
  · cases h

theorem closingStatus_cases (o : Option Operation) :
    closingStatus o = .finished ∨ closingStatus o = .recoveryRequired := by
  cases o with
  | none => exact .inl rfl
  | some o =>
    rw [closingStatus]
    split
    · exact .inr rfl
    · exact .inl rfl

/-- An accepted operation rests once its next attempt is scheduled. -/
theorem rests_scheduledRow {o : Operation} (h : RetryRecorded o) (hf : o.finishing = true)
    (now : Timestamp) : Rests (scheduledRow now o) := by
  refine .inr ⟨hf, ?_⟩
  cases hnext : (scheduledRetry now o.refs.retry).nextAt with
  | some next =>
    refine .inl ⟨?_, ?_⟩
    · simp only [scheduledRow, hnext]
      rfl
    · change (scheduledRetry now o.refs.retry).nextAt.isSome = true
      rw [hnext]
      rfl
  | none =>
    refine .inr ⟨?_, ?_⟩
    · simp only [scheduledRow, hnext]
      rfl
    · change o.refs.retry.attempts = retryDelays.length
      rw [scheduledRetry, Option.map_eq_none_iff, List.getElem?_eq_none_iff] at hnext
      exact Nat.le_antisymm h.bound hnext

/-- **What every transaction of `_run` does.** -/
theorem advance_spec {now : Timestamp} {db db' : Database} {id : OperationId} {stage : Stage}
    {p : Progress} (h : DbInv db) (hheld : Held db id stage) (hworking : stage ≠ .working)
    (hadvance : advance now db id stage = (db', p)) : Advanced db id db' p := by
  have hi := hheld.interrupted
  cases stage with
  | taken =>
    obtain ⟨hok, rfl⟩ | ⟨e, -, rfl, rfl⟩ := attempt_cases hadvance
    · obtain ⟨hnew, hop⟩ := Advanced.statusOf_set hok
      have hpending : db.statusOf id = some .pending := by
        simpa [Database.AtStage] using hheld.status
      obtain ⟨d, hd, hstatus⟩ := DbInv.exists_dispatch hpending
      have hissued : (Call.setOperationDispatchStatus id .running now).issued db = true := by
        simp only [Call.issued, hd, Call.statusIssued, hstatus, beq_self_eq_true]
      refine ⟨?_, ?_, Call.applications_of_run (.setOperationDispatchStatus id .running now) hok
        rfl, Advanced.retryCount_set hok, Advanced.present_set hok, ?_, fun hp => absurd hp (by simp)⟩
      · refine h.own _ hissued rfl hok rfl ?_
        intro o hrecovery
        rw [hnew] at hrecovery
        cases hrecovery
      · intro k hk
        exact Call.frame (.setOperationDispatchStatus id .running now) hok
          fun he => hk (Option.some.inj he).symm
      · intro stage' hp
        obtain rfl := Progress.stage.inj hp
        exact ⟨by simp, .of_bare ⟨.running, hnew, rfl⟩ rfl⟩
    · exact .skip h hi rfl
  | working => exact absurd rfl hworking
  | returned =>
    rw [advance] at hadvance
    split at hadvance
    · obtain ⟨rfl, rfl⟩ := Prod.mk.inj hadvance
      exact .skip h hi rfl
    · rename_i hop hd
      obtain ⟨hok, rfl⟩ | ⟨e, -, rfl, rfl⟩ := attempt_cases hadvance
      · exact .call (.beginOperation (placeholder id _ "accepted")) h hi
          (beginIssued_placeholder hd hi) rfl rfl hok rfl rfl (by simp)
          (held_placeholder hok (.inl rfl))
      · exact .skip h hi rfl
    · obtain ⟨rfl, rfl⟩ := Prod.mk.inj hadvance
      exact .skip h hi rfl
  | accepting =>
    obtain ⟨hok, rfl⟩ | ⟨e, -, rfl, rfl⟩ := attempt_cases hadvance
    · exact .call (.markSucceeded id "not_required") h hi rfl rfl rfl hok rfl rfl (by simp)
        (.of_bare · rfl)
    · exact .skip h hi rfl
  | failing =>
    rw [advance] at hadvance
    split at hadvance
    · rename_i hop hd
      obtain ⟨hok, rfl⟩ | ⟨e, -, rfl, hp⟩ := attempt_cases hadvance
      · exact .call (.beginOperation (placeholder id _ "rejected")) h hi
          (beginIssued_placeholder hd hi) rfl rfl hok rfl rfl (by simp)
          (held_placeholder hok (.inr rfl))
      · split at hp
        · rw [hp]
          exact .skip h hi rfl
        · rw [hp]
          exact .skip h hi rfl
    · obtain ⟨rfl, rfl⟩ := Prod.mk.inj hadvance
      exact .skip h hi rfl
    · rename_i o _ hop
      split at hadvance
      · obtain ⟨hok, rfl⟩ | ⟨e, -, rfl, rfl⟩ := attempt_cases hadvance
        · split at hok
          · exact .call (.recordFinishingFailure id) h hi rfl rfl rfl hok rfl rfl (by simp)
              (.of_bare · rfl)
          · exact .call (.markRecoveryRequired id none) h hi rfl rfl rfl hok rfl rfl (by simp)
              (.of_bare · rfl)
        · exact .skip h hi rfl
      · obtain ⟨rfl, rfl⟩ := Prod.mk.inj hadvance
        exact .skip h hi rfl
  | rejecting =>
    obtain ⟨hok, rfl⟩ | ⟨e, -, rfl, hp⟩ := attempt_cases hadvance
    · exact .call (.markFailed id "not_required") h hi rfl rfl rfl hok rfl rfl (by simp)
        (.of_bare · rfl)
    · split at hp
      · rw [hp]
        exact .skip h hi rfl
      · rw [hp]
        exact .skip h hi rfl
  | closing escaping =>
    rw [advance] at hadvance
    split at hadvance
    · rename_i o ho
      split at hadvance
      · rename_i hpending
        obtain ⟨hf, hn⟩ := Bool.and_eq_true_iff.mp hpending
        obtain ⟨hok, rfl⟩ | ⟨e, -, rfl, rfl⟩ := attempt_cases hadvance
        · refine .call (.schedule id now) h hi rfl rfl rfl hok rfl rfl (by simp) fun hi' => ?_
          refine ⟨?_, by simp, ?_⟩
          · rw [Database.AtStage, if_neg (by simp)]
            exact hi'
          · rw [schedule_of_pending ho hf hn] at hok
            have ho' := Database.getOperation_put (check_bind_eq_ok.mp hok).2 id
            exact fun _ _ => ⟨_, ho'.trans (if_pos rfl),
              rests_scheduledRow (h.retries id o ho) hf now⟩
        · exact .skip_leave h e
      · rename_i hpending
        have hpending : (o.finishing && o.nonterminal) = false := Bool.eq_false_iff.mpr hpending
        have hunique : ∀ o', db.getOperation id = some o' →
            (o'.finishing && o'.nonterminal) = false := by
          intro o' ho'
          cases ho.symm.trans ho'
          exact hpending
        obtain ⟨hok, rfl⟩ | ⟨e, -, rfl, rfl⟩ := attempt_cases hadvance
        · refine .settle h hi (closingStatus_cases _) ?_ ?_ hok
          · intro hfinished
            exact finishable_of_closingStatus hunique (by rw [ho]; exact hfinished)
          · intro hrecovery o' ho'
            cases ho.symm.trans ho'
            exact rests_of_closingStatus hpending hrecovery
        · exact .skip_leave h e
    · rename_i ho
      obtain ⟨hok, rfl⟩ | ⟨e, -, rfl, rfl⟩ := attempt_cases hadvance
      · refine .settle h hi (closingStatus_cases _) ?_ ?_ hok
        · intro _
          rw [Call.finishable, ho]
        · intro hrecovery
          exact absurd hrecovery (by simp [closingStatus])
      · exact .skip_leave h e
  | settling escaping =>
    obtain ⟨hok, rfl⟩ | ⟨e, -, rfl, rfl⟩ := attempt_cases hadvance
    · refine .settle h hi (.inr rfl) (fun hfinished => absurd hfinished (by simp)) ?_ hok
      intro _ o ho
      obtain ⟨o', ho', hrests⟩ := hheld.settling escaping rfl
      cases ho.symm.trans ho'
      exact hrests
    · exact .skip_leave h e

/-- How a worker comes to the end of the `finally` block: it settles the dispatch, or a write of
the block itself raises. -/
inductive Leaves (now : Timestamp) (db : Database) (id : OperationId) : Stage → Database → Prop where
  | closed {e : Option Error} {db' : Database}
      (hpending : ∀ o, db.getOperation id = some o → (o.finishing && o.nonterminal) = false)
      (hok : setOperationDispatchStatus id (closingStatus (db.getOperation id)) now db = .ok db') :
      Leaves now db id (.closing e) db'
  | settled {e : Option Error} {db' : Database}
      (hok : setOperationDispatchStatus id .recoveryRequired now db = .ok db') :
      Leaves now db id (.settling e) db'
  | unset {stage : Stage} {status : DispatchStatus} {e : Error}
      (hstatus : status = .finished ∨ status = .recoveryRequired)
      (herror : setOperationDispatchStatus id status now db = .error e) :
      Leaves now db id stage db
  | unscheduled {e : Option Error} {e' : Error} {o : Operation} (ho : db.getOperation id = some o)
      (hf : o.finishing = true) (hn : o.nonterminal = true)
      (herror : schedule id now db = .error e') : Leaves now db id (.closing e) db

/-- A worker leaves only from the `finally` block. -/
theorem advance_leaves {now : Timestamp} {db db' : Database} {id : OperationId} {stage : Stage}
    {escaped : Option Error} (hadvance : advance now db id stage = (db', .leave escaped)) :
    Leaves now db id stage db' := by
  cases stage with
  | taken =>
    obtain ⟨-, hp⟩ | ⟨e, -, -, hp⟩ := attempt_cases hadvance
    · cases hp
    · cases hp
  | working => exact absurd (Prod.mk.inj hadvance).2 (by simp)
  | returned =>
    rw [advance] at hadvance
    split at hadvance
    · exact absurd (Prod.mk.inj hadvance).2 (by simp)
    · obtain ⟨-, hp⟩ | ⟨e, -, -, hp⟩ := attempt_cases hadvance
      · cases hp
      · cases hp
    · exact absurd (Prod.mk.inj hadvance).2 (by simp)
  | accepting =>
    obtain ⟨-, hp⟩ | ⟨e, -, -, hp⟩ := attempt_cases hadvance
    · cases hp
    · cases hp
  | failing =>
    rw [advance] at hadvance
    split at hadvance
    · obtain ⟨-, hp⟩ | ⟨e, -, -, hp⟩ := attempt_cases hadvance
      · cases hp
      · split at hp <;> cases hp
    · exact absurd (Prod.mk.inj hadvance).2 (by simp)
    · split at hadvance
      · obtain ⟨-, hp⟩ | ⟨e, -, -, hp⟩ := attempt_cases hadvance
        · cases hp
        · cases hp
      · exact absurd (Prod.mk.inj hadvance).2 (by simp)
  | rejecting =>
    obtain ⟨-, hp⟩ | ⟨e, -, -, hp⟩ := attempt_cases hadvance
    · cases hp
    · split at hp <;> cases hp
  | closing escaping =>
    rw [advance] at hadvance
    split at hadvance
    · rename_i o ho
      split at hadvance
      · rename_i hpending
        obtain ⟨hf, hn⟩ := Bool.and_eq_true_iff.mp hpending
        obtain ⟨-, hp⟩ | ⟨e, herror, rfl, -⟩ := attempt_cases hadvance
        · cases hp
        · exact .unscheduled ho hf hn herror
      · rename_i hpending
        obtain ⟨hok, -⟩ | ⟨e, herror, rfl, -⟩ := attempt_cases hadvance
        · refine .closed ?_ (by rw [ho]; exact hok)
          intro o' ho'
          cases ho.symm.trans ho'
          exact Bool.eq_false_iff.mpr hpending
        · exact .unset (closingStatus_cases _) herror
    · rename_i ho
      obtain ⟨hok, -⟩ | ⟨e, herror, rfl, -⟩ := attempt_cases hadvance
      · refine .closed ?_ (by rw [ho]; exact hok)
        intro o' ho'
        rw [ho] at ho'
        cases ho'
      · exact .unset (closingStatus_cases _) herror
  | settling escaping =>
    obtain ⟨hok, -⟩ | ⟨e, herror, rfl, -⟩ := attempt_cases hadvance
    · exact .settled hok
    · exact .unset (.inr rfl) herror

end Controller
end OpenstackPlatform
