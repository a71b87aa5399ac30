import OpenstackPlatform.Controller.ExecutorInvariant

/-!
# The startup pass

What `_recover_startup` does to a database in which the process stopped, dispatch by dispatch.

The pass keeps the database's invariant at every transaction, so it can itself be stopped anywhere.
A dispatch it has passed over is no longer pending or running.  Three things can be in its way, and
`recoverDispatch_always` names them:

* `Blocked`: the dispatch has no operation and another operation is unfinished in its scope; the
  dispatch is then left waiting for recovery with nothing to recover.
* `Refused`: the dispatch has no operation and a finishing operation of its scope does not admit
  its kind; `begin_operation` raises and the pass ends.
* `Overfull`: the refs of a finishing operation leave no room for its retry record; `schedule`
  raises and the pass ends.
-/

namespace OpenstackPlatform
namespace Controller

open Library Validation

/-- The dispatch has no operation and its scope has another one unfinished. -/
def Blocked (db : Database) (id : OperationId) (d : OperationDispatch) : Prop :=
  db.getOperation id = none ∧ getUnfinishedOperation db d.scope ≠ none

/-- The dispatch has no operation and its scope's finishing operation does not admit its kind. -/
def Refused (db : Database) (id : OperationId) (d : OperationDispatch) : Prop :=
  db.getOperation id = none ∧ checkFinishingAdmission db d.scope d.kind ≠ .ok ()

/-- The retry record that `schedule` writes does not fit into the operation's refs. -/
def Overfull (now : Timestamp) (db : Database) (id : OperationId) : Prop :=
  ∃ o, db.getOperation id = some o ∧ o.finishing = true ∧ o.nonterminal = true ∧
    checkRefs (scheduledRefs now o.refs) ≠ .ok ()

/-- What every transaction of the pass over one dispatch keeps. -/
structure Moved (db : Database) (id : OperationId) (db' : Database) : Prop where
  dbInv : DbInv db'
  frame : ∀ k, k ≠ id → Call.SameRows db db' k
  applications : Call.SameApplications db db'
  retryCount : ∀ k, db'.retryCount k = db.retryCount k
  present : ∀ k, (db.getDispatch k).isSome = true → (db'.getDispatch k).isSome = true

theorem Moved.refl {db : Database} (h : DbInv db) (id : OperationId) : Moved db id db :=
  ⟨h, fun _ _ => ⟨rfl, rfl⟩, ⟨rfl, rfl⟩, fun _ => rfl, fun _ hk => hk⟩

theorem Moved.trans {db db₁ db' : Database} {id : OperationId} (h : Moved db id db₁)
    (h' : Moved db₁ id db') : Moved db id db' :=
  ⟨h'.dbInv, fun k hk => (h.frame k hk).trans (h'.frame k hk),
    h.applications.trans h'.applications,
    fun k => (h'.retryCount k).trans (h.retryCount k), fun k hk => h'.present k (h.present k hk)⟩

theorem Advanced.moved {db db' : Database} {id : OperationId} {p : Progress}
    (h : Advanced db id db' p) : Moved db id db' :=
  ⟨h.dbInv, h.frame, h.applications, h.retryCount, h.present⟩

/-- A finished dispatch has no operation that could still run. -/
def Database.Delivered (db : Database) (id : OperationId) : Prop :=
  db.statusOf id = some .finished → ∀ o, db.getOperation id = some o → o.nonterminal = false

/-- A state in the pass over one dispatch: if the dispatch waits for recovery it has an operation,
unless it waited for recovery before or was blocked; and it is finished only with its
operation. -/
structure Passing (db : Database) (id : OperationId) (d : OperationDispatch) (db' : Database) :
    Prop extends Moved db id db' where
  recoverable : db'.statusOf id = some .recoveryRequired → db'.getOperation id = none →
    (db.statusOf id = some .recoveryRequired ∧ db.getOperation id = none) ∨
      (d.status.interrupted = true ∧ Blocked db id d)
  delivered : db.Delivered id → db'.Delivered id

/-- A pending or running dispatch does not wait for recovery. -/
theorem Database.Interrupted.ne {db : Database} {id : OperationId} (h : db.Interrupted id) :
    db.statusOf id ≠ some .recoveryRequired := by
  obtain ⟨status, hstatus, hint⟩ := h
  rw [hstatus]
  rintro ⟨⟩
  exact Bool.false_ne_true hint

theorem Moved.passing {db db' : Database} {id : OperationId} {d : OperationDispatch}
    (h : Moved db id db') (hi : db'.Interrupted id) : Passing db id d db' := by
  refine ⟨h, fun hstatus => absurd hstatus hi.ne, fun _ hstatus => ?_⟩
  obtain ⟨status, hstatus', hint⟩ := hi
  cases hstatus.symm.trans hstatus'
  cases hint

/-- The second operation is the first in all that `check_finishing_admission` reads. -/
structure SameAdmission (o o' : Operation) : Prop where
  nonterminal : o.nonterminal = true
  finishing : o.finishing = o'.finishing
  scope : o.scope = o'.scope
  phase : o.phase = o'.phase
  entries : o.refs.entries = o'.refs.entries

/-- An unfinished or finishing operation under the ID was there before. -/
def Kept (db : Database) (id : OperationId) (db' : Database) : Prop :=
  ∀ o', db'.getOperation id = some o' → o'.nonterminal = true →
    ∃ o, db.getOperation id = some o ∧ SameAdmission o o'

theorem Kept.of_same {db db' : Database} {id : OperationId}
    (h : db'.getOperation id = db.getOperation id) : Kept db id db' :=
  fun o' ho' hn => ⟨o', h.symm.trans ho', hn, rfl, rfl, rfl, rfl⟩

/-- What the pass over one dispatch leaves behind. -/
structure Passed (db : Database) (id : OperationId) (d : OperationDispatch) (db' : Database) :
    Prop extends Passing db id d db' where
  settled : ¬ db'.Interrupted id
  kept : Kept db id db'

/-- How the pass over one dispatch ends. -/
def PassEnds (now : Timestamp) (db : Database) (id : OperationId) (d : OperationDispatch)
    (r : Except Error Unit) (db' : Database) : Prop :=
  match r with
  | .ok _ => Passed db id d db'
  | .error _ => Passing db id d db' ∧ d.status.interrupted = true ∧
    (Refused db id d ∨ Overfull now db id)

section Pass

variable {now : Timestamp} {db : Database} {id : OperationId} {d : OperationDispatch}

/-- The dispatch under an ID, read from a status. -/
theorem interrupted_iff (hd : db.getDispatch id = some d) :
    db.Interrupted id ↔ d.status.interrupted = true := by
  rw [Database.Interrupted, Database.statusOf, hd]
  simp

variable {status : DispatchStatus}

/-- A dispatch that is finished or waits for recovery is not interrupted. -/
theorem not_interrupted (hstatus : db.statusOf id = some status)
    (hsettled : status = .finished ∨ status = .recoveryRequired) : ¬ db.Interrupted id := by
  rintro ⟨status', hstatus', hint⟩
  cases hstatus.symm.trans hstatus'
  obtain rfl | rfl := hsettled <;> exact Bool.false_ne_true hint

/-- Nothing was done yet. -/
theorem Passing.refl (h : DbInv db) : Passing db id d db :=
  ⟨.refl h id, fun hstatus hnone => .inl ⟨hstatus, hnone⟩, fun hdelivered => hdelivered⟩

/-- A dispatch that was settled before is passed over. -/
theorem passEnds_skip (h : DbInv db) (hd : db.getDispatch id = some d)
    (hsettled : d.status.interrupted = false) : PassEnds now db id d (.ok ()) db := by
  refine ⟨.refl h, ?_, .of_same rfl⟩
  rw [interrupted_iff hd, hsettled]
  exact Bool.false_ne_true

/-- Settling an interrupted dispatch always succeeds. -/
theorem exists_settle (h : DbInv db) (hi : db.Interrupted id)
    (hstatus : status = .finished ∨ status = .recoveryRequired) :
    ∃ db', setOperationDispatchStatus id status now db = .ok db' := by
  obtain ⟨old, hold, hint⟩ := hi
  obtain ⟨d, hd, rfl⟩ := DbInv.exists_dispatch hold
  have hactive : d.status.active = true := by
    cases hs : d.status with
    | finished => rw [hs] at hint; exact absurd hint (by simp [DispatchStatus.interrupted])
    | _ => rfl
  exact exists_setOperationDispatchStatus (h.inv.valid id d hd).1
    (by rintro rfl; simp at hstatus) hd hactive

/-- A dispatch whose operation has ended may be finished. -/
theorem finishable_of_ended (h : ∀ o, db.getOperation id = some o → o.nonterminal = false) :
    Call.finishable db id = true := by
  rw [Call.finishable]
  cases ho : db.getOperation id with
  | none => rfl
  | some o =>
    have hterminal := h o ho
    simp only [hterminal, Bool.and_false, Bool.not_false, Bool.true_and, bne_iff_ne]
    intro hstatus
    rw [Operation.nonterminal, hstatus] at hterminal
    exact absurd hterminal (by simp [OperationStatus.nonterminal])

/-- The end of the pass over an interrupted dispatch: it is settled. -/
theorem settle_ends {db₁ : Database} (hmoved : Moved db id db₁) (hi : db₁.Interrupted id)
    (hstatus : status = .finished ∨ status = .recoveryRequired)
    (hended : status = .finished → ∀ o, db₁.getOperation id = some o → o.nonterminal = false)
    (hrest : status = .recoveryRequired → ∀ o, db₁.getOperation id = some o → Rests o)
    (hkept : Kept db id db₁)
    (hrecoverable : status = .recoveryRequired → db₁.getOperation id = none →
      d.status.interrupted = true ∧ Blocked db id d) :
    Program.Always (settle now id status) db₁ (Passing db id d) (PassEnds now db id d) := by
  refine Program.always_commit ?_ ?_
  · intro db' hok
    have hadvanced : Advanced db₁ id db' (.leave none) :=
      .settle hmoved.dbInv hi hstatus (fun hfin => finishable_of_ended (hended hfin)) hrest hok
    obtain ⟨hnew, hop⟩ := Advanced.statusOf_set hok
    have hpassing : Passing db id d db' := by
      refine ⟨hmoved.trans hadvanced.moved, ?_, ?_⟩
      · intro hrecovery hnone
        refine .inr (hrecoverable ?_ (hop.symm.trans hnone))
        exact Option.some.inj (hnew.symm.trans hrecovery)
      · intro _ hfin o ho
        exact hended (Option.some.inj (hnew.symm.trans hfin)) o (hop.symm.trans ho)
    refine ⟨hpassing, hpassing, not_interrupted hnew hstatus, ?_⟩
    intro o' ho'
    exact hkept o' (hop.symm.trans ho')
  · intro e herror
    obtain ⟨db', hok⟩ : ∃ db', setOperationDispatchStatus id status now db₁ = .ok db' :=
      exists_settle hmoved.dbInv hi hstatus
    rw [hok] at herror
    cases herror

/-- A transaction of the pass that writes no status and cannot fail. -/
theorem commit_call (call : Call) (h : DbInv db) (hi : db.Interrupted id)
    (hissued : call.issued db = true) (hrefs : call.refsIssued db = true)
    (hcarries : call.carriesRetries db = true)
    (htarget : call.target = some id) (hwrites : call.writesStatus = false)
    (hexists : ∃ db', call.run db = .ok db') :
    Program.Always (.commit call.run) db (fun db' => Moved db id db' ∧ db'.Interrupted id)
      fun r db' => r = .ok () ∧ call.run db = .ok db' ∧ Moved db id db' ∧ db'.Interrupted id := by
  refine Program.always_commit ?_ ?_
  · intro db' hok
    have hadvanced : Advanced db id db' (.stage .failing) :=
      .call call h hi hissued hrefs hcarries hok htarget hwrites (by simp) (.of_bare · rfl)
    have hi' := (hadvanced.held .failing rfl).2.interrupted
    exact ⟨⟨hadvanced.moved, hi'⟩, rfl, hok, hadvanced.moved, hi'⟩
  · intro e herror
    obtain ⟨db', hok⟩ := hexists
    rw [hok] at herror
    cases herror

variable {o : Operation}

/-- A finishing operation whose dispatch is settled has a retry record. -/
theorem interrupted_of_finishingRetry (h : DbInv db) (hd : db.getDispatch id = some d)
    (ho : db.getOperation id = some o) (hf : o.finishing = true) (hn : o.nonterminal = true)
    (hcond : (d.status.interrupted || o.refs.finishingRetry.isNone) = true) :
    d.status.interrupted = true := by
  obtain hint | hnone := Bool.or_eq_true_iff.mp hcond
  · exact hint
  · have hactive := (h.inv.agree id d o hd ho).2.2.2 hn hf
    have hretry : o.refs.retry = ⟨0, none⟩ := by
      rw [Refs.retry, Option.isNone_iff_eq_none.mp hnone]
      rfl
    cases hs : d.status with
    | pending => rfl
    | running => rfl
    | finished => rw [hs] at hactive; exact absurd hactive (by simp [DispatchStatus.active])
    | recoveryRequired =>
      have hstatus : db.statusOf id = some .recoveryRequired := by
        rw [Database.statusOf, hd, ← hs]
        rfl
      obtain ⟨hfg, -⟩ | ⟨-, ⟨-, hnext⟩ | ⟨-, hattempts⟩⟩ := h.rests id o hstatus ho
      · rw [hf] at hfg
        cases hfg
      · rw [hretry] at hnext
        cases hnext
      · rw [hretry] at hattempts
        cases hattempts

/-- The pass over a dispatch whose operation is finishing. -/
theorem recoverFinishing_always (h : DbInv db) (hd : db.getDispatch id = some d)
    (ho : db.getOperation id = some o) (hf : o.finishing = true) (hn : o.nonterminal = true) :
    Program.Always (recoverFinishing now id d o) db (Passing db id d)
      (PassEnds now db id d) := by
  rw [recoverFinishing]
  split
  · rename_i hcond
    have hint := interrupted_of_finishingRetry h hd ho hf hn hcond
    have hi : db.Interrupted id := (interrupted_iff hd).mpr hint
    refine Program.always_bind ?_
    cases hrefs : checkRefs (scheduledRefs now o.refs) with
    | ok u =>
      have hschedule : schedule id now db = db.putOperation id (scheduledRow now o) := by
        rw [schedule_of_pending ho hf hn, hrefs]
        rfl
      have hexists : ∃ db', (Call.schedule id now).run db = .ok db' := by
        obtain ⟨db', hput⟩ := (amends_scheduledRow hn now).exists_put ho
        exact ⟨db', hschedule.trans hput⟩
      refine (commit_call (.schedule id now) h hi rfl rfl rfl rfl rfl hexists).mono
        (fun _ hm => hm.1.passing hm.2) ?_
      rintro r db₁ ⟨rfl, hok, hmoved, hi₁⟩
      have hput : db.putOperation id (scheduledRow now o) = .ok db₁ := hschedule.symm.trans hok
      have ho₁ : db₁.getOperation id = some (scheduledRow now o) :=
        (Database.getOperation_put hput id).trans (if_pos rfl)
      refine settle_ends hmoved hi₁ (.inr rfl) (fun hfin => absurd hfin (by simp)) ?_ ?_ ?_
      · intro _ o' ho'
        cases ho₁.symm.trans ho'
        exact rests_scheduledRow (h.retries id o ho) hf now
      · intro o' ho' _
        cases ho₁.symm.trans ho'
        exact ⟨o, ho, hn, rfl, rfl, rfl, rfl⟩
      · intro _ hnone
        rw [ho₁] at hnone
        cases hnone
    | error e =>
      refine Program.always_commit ?_ ?_
      · intro db' hok
        rw [schedule_of_pending ho hf hn, hrefs] at hok
        exact absurd hok (by simp [bind, Except.bind])
      · intro e' _
        refine ⟨.refl h, hint, .inr ⟨o, ho, hf, hn, ?_⟩⟩
        rw [hrefs]
        simp
  · rename_i hcond
    have hcond := Bool.or_eq_false_iff.mp (Bool.eq_false_iff.mpr hcond)
    exact Program.always_pure (passEnds_skip h hd hcond.1)

/-- Beginning the placeholder of an interrupted dispatch without an operation. -/
theorem begin_always (h : DbInv db) (hd : db.getDispatch id = some d) (hi : db.Interrupted id)
    (hop : db.getOperation id = none) :
    Program.Always
      (Program.tryCatch
        (do .commit (beginOperation (placeholder id d "startup_interrupted")); pure true)
        fun
          | .unfinishedOperation _ _ _ => pure false
          | e => .throw e)
      db (Passing db id d) fun r db₁ =>
        match r with
        | .ok true => Moved db id db₁ ∧ db₁.Interrupted id ∧
          db₁.getOperation id = some (placeholder id d "startup_interrupted").row
        | .ok false => db₁ = db ∧ Blocked db id d
        | .error _ => db₁ = db ∧ Refused db id d := by
  have hphase : isOperationToken "startup_interrupted" = true := by decide +kernel
  have hbegin := beginOperation_placeholder "startup_interrupted" h.inv hphase hd hop
  refine Program.always_tryCatch (Program.always_bind (Program.always_commit ?_ ?_))
  · intro db₁ hok
    have hadvanced : Advanced db id db₁ (.stage .failing) :=
      .call (.beginOperation (placeholder id d "startup_interrupted")) h hi
        (beginIssued_placeholder hd hi) rfl rfl hok rfl rfl (by simp) (.of_bare · rfl)
    have hi₁ := (hadvanced.held .failing rfl).2.interrupted
    refine ⟨hadvanced.moved.passing hi₁, Program.always_pure ⟨hadvanced.moved, hi₁, ?_⟩⟩
    obtain ⟨-, -, -, -, hput⟩ := beginOperation_ok hok
    exact (Database.getOperation_put hput id).trans (if_pos rfl)
  · intro e herror
    rw [hbegin] at herror
    obtain hadmission | ⟨-, herror⟩ := check_bind_eq_error.mp herror
    · obtain ⟨k, rfl⟩ := checkFinishingAdmission_eq_error hadmission
      refine Program.always_throw ⟨rfl, hop, ?_⟩
      rw [hadmission]
      simp
    · split at herror
      · rename_i k o hsome
        cases herror
        refine Program.always_pure ⟨rfl, hop, ?_⟩
        rw [hsome]
        simp
      · rename_i hnone
        obtain ⟨db₁, hput⟩ := exists_put_row (r := placeholder id d "startup_interrupted") hnone
        rw [show db.putOperation id (placeholder id d "startup_interrupted").row = .ok db₁ from
          hput] at herror
        cases herror

/-- A running operation can be ended or put into recovery. -/
theorem exists_markFailed (hid : isUuid id = true) (ho : db.getOperation id = some o)
    (hn : o.nonterminal = true) : ∃ db', (Call.markFailed id "not_required").run db = .ok db' := by
  obtain ⟨db', hfinish⟩ :
      ∃ db', finishOperation id .failed none (some "not_required") db = .ok db' :=
    exists_finishOperation hid (by rintro _ ⟨⟩; decide +kernel) ho hn
  refine ⟨db', ?_⟩
  change markFailed id "not_required" db = .ok db'
  rw [markFailed]
  exact check_bind_eq_ok.mpr ⟨rfl, hfinish⟩

/-- The pass over an interrupted dispatch without an operation. -/
theorem recoverWithoutIntent_always (h : DbInv db) (hd : db.getDispatch id = some d)
    (hint : d.status.interrupted = true) (hop : db.getOperation id = none) :
    Program.Always (recoverWithoutIntent now id d) db (Passing db id d)
      (PassEnds now db id d) := by
  have hi : db.Interrupted id := (interrupted_iff hd).mpr hint
  have hid := (h.inv.valid id d hd).1
  refine Program.always_bind ((begin_always h hd hi hop).mono (fun _ hp => hp) ?_)
  rintro r db₁ hr
  match r with
  | .error e =>
    obtain ⟨rfl, hrefused⟩ := hr
    exact ⟨.refl h, hint, .inl hrefused⟩
  | .ok false =>
    obtain ⟨rfl, hblocked⟩ := hr
    refine settle_ends (.refl h id) hi (.inr rfl) (fun hfin => absurd hfin (by simp)) ?_
      (.of_same rfl) ?_
    · intro _ o ho
      rw [hop] at ho
      cases ho
    · exact fun _ _ => ⟨hint, hblocked⟩
  | .ok true =>
    obtain ⟨hmoved, hi₁, ho₁⟩ := hr
    have hexists := exists_markFailed hid ho₁ rfl
    refine Program.always_bind ((commit_call (.markFailed id "not_required") hmoved.dbInv hi₁ rfl
      rfl rfl rfl rfl hexists).mono (fun _ hm => (hmoved.trans hm.1).passing hm.2) ?_)
    rintro r db₂ ⟨rfl, hok, hmoved₂, hi₂⟩
    obtain ⟨o, -, -, hput⟩ := finishOperation_ok (markFailed_ok hok)
    have ho₂ := (Database.getOperation_put hput id).trans (if_pos rfl)
    refine settle_ends (hmoved.trans hmoved₂) hi₂ (.inl rfl) ?_ (fun hr => absurd hr (by simp))
      ?_ (fun hr => absurd hr (by simp))
    · intro _ o' ho'
      cases ho₂.symm.trans ho'
      rfl
    · intro o' ho' hn
      cases ho₂.symm.trans ho'
      exact absurd hn (by simp [Operation.nonterminal, OperationStatus.nonterminal])

/-- The pass over an interrupted dispatch whose operation has ended. -/
theorem recoverEnded_always (h : DbInv db) (hi : db.Interrupted id)
    (ho : db.getOperation id = some o) (hterminal : o.nonterminal = false) :
    Program.Always (settle now id .finished) db (Passing db id d) (PassEnds now db id d) := by
  refine settle_ends (.refl h id) hi (.inl rfl) ?_ (fun hr => absurd hr (by simp))
    (.of_same rfl) (fun hr => absurd hr (by simp))
  intro _ o' ho'
  cases ho.symm.trans ho'
  exact hterminal

/-- The pass over an interrupted dispatch whose foreground operation is still running. -/
theorem recoverRunning_always (h : DbInv db) (hd : db.getDispatch id = some d)
    (hi : db.Interrupted id) (ho : db.getOperation id = some o) (hn : o.nonterminal = true)
    (hfg : o.finishing = false) :
    Program.Always (do
        Program.commit (markRecoveryRequired id none)
        settle now id .recoveryRequired)
      db (Passing db id d) (PassEnds now db id d) := by
  have hexists : ∃ db', (Call.markRecoveryRequired id none).run db = .ok db' :=
    exists_finishOperation (h.inv.valid id d hd).1 (by simp) ho hn
  refine Program.always_bind ((commit_call (.markRecoveryRequired id none) h hi rfl rfl
    rfl rfl rfl hexists).mono (fun _ hm => hm.1.passing hm.2) ?_)
  rintro r db₁ ⟨rfl, hok, hmoved, hi₁⟩
  obtain ⟨o₀, ho₀, -, hput⟩ := finishOperation_ok hok
  cases ho.symm.trans ho₀
  have ho₁ := (Database.getOperation_put hput id).trans (if_pos rfl)
  refine settle_ends hmoved hi₁ (.inr rfl) (fun hfin => absurd hfin (by simp)) ?_ ?_ ?_
  · intro _ o' ho'
    cases ho₁.symm.trans ho'
    exact .inl ⟨hfg, rfl⟩
  · intro o' ho' _
    cases ho₁.symm.trans ho'
    exact ⟨o, ho, hn, rfl, rfl, rfl, rfl⟩
  · intro _ hnone
    rw [ho₁] at hnone
    cases hnone

/-- The pass over an interrupted dispatch whose foreground operation waits for recovery. -/
theorem recoverWaiting_always (h : DbInv db) (hi : db.Interrupted id)
    (ho : db.getOperation id = some o) (hn : o.nonterminal = true) (hfg : o.finishing = false)
    (hrunning : o.status ≠ .running) :
    Program.Always (settle now id .recoveryRequired) db (Passing db id d)
      (PassEnds now db id d) := by
  refine settle_ends (.refl h id) hi (.inr rfl) (fun hfin => absurd hfin (by simp)) ?_
    (.of_same rfl) ?_
  · intro _ o' ho'
    cases ho.symm.trans ho'
    refine .inl ⟨hfg, ?_⟩
    rw [Operation.nonterminal] at hn
    cases hs : o.status with
    | running => exact absurd hs hrunning
    | recoveryRequired => rfl
    | succeeded => rw [hs] at hn; exact absurd hn (by simp [OperationStatus.nonterminal])
    | failed => rw [hs] at hn; exact absurd hn (by simp [OperationStatus.nonterminal])
  · intro _ hnone
    rw [ho] at hnone
    cases hnone

/-- **The pass over one dispatch**, whatever state the process stopped in. -/
theorem recoverDispatch_always (h : DbInv db) (hd : db.getDispatch id = some d) :
    Program.Always (recoverDispatch now id d) db (Passing db id d) (PassEnds now db id d) := by
  refine Program.always_bind (Program.always_read ?_)
  cases ho : db.getOperation id with
  | none =>
    simp only
    split
    · rename_i hint
      exact recoverWithoutIntent_always h hd hint ho
    · rename_i hint
      exact Program.always_pure (passEnds_skip h hd (Bool.eq_false_iff.mpr hint))
  | some o =>
    simp only
    split
    · rename_i hpending
      obtain ⟨hf, hn⟩ := Bool.and_eq_true_iff.mp hpending
      exact recoverFinishing_always h hd ho hf hn
    · rename_i hpending
      have hpending : (o.finishing && o.nonterminal) = false := Bool.eq_false_iff.mpr hpending
      split
      · rename_i hint
        exact Program.always_pure (passEnds_skip h hd (by simpa using hint))
      · rename_i hint
        have hint : d.status.interrupted = true := by simpa using hint
        have hi : db.Interrupted id := (interrupted_iff hd).mpr hint
        split
        · rename_i hterminal
          exact recoverEnded_always h hi ho (by simpa using hterminal)
        · rename_i hterminal
          have hn : o.nonterminal = true := by simpa using hterminal
          have hfg : o.finishing = false := by rwa [hn, Bool.and_true] at hpending
          split
          · exact recoverRunning_always h hd hi ho hn hfg
          · rename_i hrunning
            exact recoverWaiting_always h hi ho hn hfg (by simpa using hrunning)

end Pass

/-! ## The whole pass -/

/-- Nothing is in the way of the pass: no interrupted dispatch is blocked, refused or overfull. -/
def Startable (now : Timestamp) (db : Database) : Prop :=
  ∀ id d, db.getDispatch id = some d → d.status.interrupted = true →
    ¬ Blocked db id d ∧ ¬ Refused db id d ∧ ¬ Overfull now db id

/-- Every dispatch that waits for recovery has an operation to recover. -/
def Recoverable (db : Database) : Prop :=
  ∀ id, db.statusOf id = some .recoveryRequired → db.getOperation id ≠ none

section Sweep

variable {now : Timestamp} {db db' : Database} {id : OperationId} {d : OperationDispatch}

/-- What one pass leaves of the operations that block or refuse others was there before. -/
theorem Passed.exists_operation (h : Passed db id d db') {k : OperationId} {o' : Operation}
    (ho' : db'.getOperation k = some o') (hn : o'.nonterminal = true) :
    ∃ o, db.getOperation k = some o ∧ SameAdmission o o' := by
  by_cases hk : k = id
  · subst hk
    exact h.kept o' ho' hn
  · exact ⟨o', (h.frame k hk).2.symm.trans ho', hn, rfl, rfl, rfl, rfl⟩

theorem SameAdmission.unfinishedScope {o o' : Operation} (h : SameAdmission o o')
    {scope : String} (hs : o'.unfinishedScope = some scope) :
    o.unfinishedScope = some scope := by
  rw [Operation.unfinishedScope_eq_some] at hs ⊢
  exact ⟨h.nonterminal, h.finishing.trans hs.2.1, h.scope.trans hs.2.2⟩

theorem SameAdmission.finishingScope {o o' : Operation} (h : SameAdmission o o')
    {scope : String} (hs : o'.finishingScope = some scope) :
    o.finishingScope = some scope := by
  rw [Operation.finishingScope_eq_some] at hs ⊢
  exact ⟨h.nonterminal, h.finishing.trans hs.2.1, h.scope.trans hs.2.2⟩

/-- Admission reads the phase and the services' refs of the finishing operation, and the
applications. -/
theorem SameAdmission.admits {o o' : Operation} (h : SameAdmission o o')
    (hsame : Call.SameApplications db db') (scope kind : String) :
    admits db' scope kind o' = admits db scope kind o := by
  have hdisable : disableAdmitted o'.refs = disableAdmitted o.refs := by
    simp only [disableAdmitted, Refs.get, h.entries]
  have happ : ∀ identifier, getApplication db' identifier = getApplication db identifier := by
    intro identifier
    simp only [getApplication, notTombstoned, hsame.1, hsame.2]
    rfl
  simp only [Controller.admits, hdisable, happ, h.phase]

/-- The pass over one dispatch puts nothing in the way of the next. -/
theorem Passed.startable (h : Passed db id d db') (hstart : Startable now db) :
    Startable now db' := by
  intro k dk hdk hint
  have hk : k ≠ id := by
    rintro rfl
    exact h.settled ((interrupted_iff hdk).mpr hint)
  obtain ⟨hsamed, hsameo⟩ := h.frame k hk
  obtain ⟨hblocked, hrefused, hoverfull⟩ := hstart k dk (hsamed.symm.trans hdk) hint
  refine ⟨?_, ?_, ?_⟩
  · rintro ⟨hop, hsome⟩
    refine hblocked ⟨hsameo.symm.trans hop, ?_⟩
    obtain ⟨⟨k', o'⟩, hfound⟩ := Option.ne_none_iff_exists'.mp hsome
    obtain ⟨ho', hs⟩ := getUnfinishedOperation_eq_some hfound
    obtain ⟨o, ho, hsame⟩ := h.exists_operation ho' (Operation.unfinishedScope_eq_some.mp hs).1
    intro hnone
    exact getUnfinishedOperation_eq_none.mp hnone k' o ho (hsame.unfinishedScope hs)
  · rintro ⟨hop, hrefuse⟩
    refine hrefused ⟨hsameo.symm.trans hop, ?_⟩
    intro hadmitted
    apply hrefuse
    cases hfound : getFinishingOperation db' dk.scope with
    | none => rw [checkFinishingAdmission, hfound]
    | some e =>
      obtain ⟨k', o'⟩ := e
      obtain ⟨ho', hs⟩ := getFinishingOperation_eq_some hfound
      obtain ⟨o, ho, hsame⟩ := h.exists_operation ho' (Operation.finishingScope_eq_some.mp hs).1
      rw [checkFinishingAdmission_of_finishing ho (hsame.finishingScope hs)] at hadmitted
      rw [checkFinishingAdmission_of_finishing ho' hs, hsame.admits h.applications]
      exact hadmitted
  · rintro ⟨o, ho, hrest⟩
    exact hoverfull ⟨o, hsameo.symm.trans ho, hrest⟩

/-- A pass over a dispatch that is not blocked leaves it with an operation to recover. -/
theorem Passing.recoverable_of (h : Passing db id d db') (hd : db.getDispatch id = some d)
    (hstart : Startable now db) (hrec : Recoverable db) : Recoverable db' := by
  intro k hstatus hnone
  by_cases hk : k = id
  · subst hk
    obtain ⟨hwaits, hop⟩ | ⟨hint, hblocked⟩ := h.recoverable hstatus hnone
    · exact hrec k hwaits hop
    · exact (hstart k d hd hint).1 hblocked
  · obtain ⟨hsamed, hsameo⟩ := h.frame k hk
    rw [Database.statusOf, hsamed] at hstatus
    exact hrec k hstatus (hsameo.symm.trans hnone)

theorem Passing.delivered_of (h : Passing db id d db') (hdelivered : ∀ k, db.Delivered k)
    (k : OperationId) : db'.Delivered k := by
  by_cases hk : k = id
  · subst hk
    exact h.delivered (hdelivered k)
  · rw [Database.Delivered, Database.statusOf, (h.frame k hk).1, (h.frame k hk).2]
    exact hdelivered k

/-- A state in the pass over a list of dispatches. -/
structure Sweeping (now : Timestamp) (db : Database) (ids : List OperationId) (db' : Database) :
    Prop where
  dbInv : DbInv db'
  frame : ∀ k, k ∉ ids → Call.SameRows db db' k
  retryCount : ∀ k, db'.retryCount k = db.retryCount k
  present : ∀ k, (db.getDispatch k).isSome = true → (db'.getDispatch k).isSome = true
  recoverable : Startable now db → Recoverable db → Recoverable db'
  delivered : (∀ k, db.Delivered k) → ∀ k, db'.Delivered k

/-- How the pass over a list of dispatches ends. -/
structure SweepEnds (now : Timestamp) (db : Database) (ids : List OperationId)
    (r : Except Error Unit) (db' : Database) : Prop extends Sweeping now db ids db' where
  settled : r = .ok () → ∀ k ∈ ids, ¬ db'.Interrupted k
  completes : Startable now db → r = .ok ()

theorem Passing.sweeping (h : Passing db id d db') (hd : db.getDispatch id = some d)
    {ids : List OperationId} (hid : id ∈ ids) : Sweeping now db ids db' where
  dbInv := h.dbInv
  frame k hk := h.frame k fun he => hk (he ▸ hid)
  retryCount := h.retryCount
  present := h.present
  recoverable := h.recoverable_of hd
  delivered := h.delivered_of

/-- The pass over the rest of the list, after the pass over its first dispatch. -/
theorem Sweeping.after {db₁ : Database} {rest : List OperationId} (h : Passed db id d db₁)
    (hd : db.getDispatch id = some d) (h' : Sweeping now db₁ rest db') :
    Sweeping now db (id :: rest) db' where
  dbInv := h'.dbInv
  frame k hk := by
    rw [List.mem_cons, not_or] at hk
    exact (h.frame k hk.1).trans (h'.frame k hk.2)
  retryCount k := (h'.retryCount k).trans (h.retryCount k)
  present k hk := h'.present k (h.present k hk)
  recoverable hstart hrec := h'.recoverable (h.startable hstart) (h.recoverable_of hd hstart hrec)
  delivered hdelivered := h'.delivered (h.delivered_of hdelivered)

/-- The pass over a list of dispatches, as they were read at its start. -/
theorem recoverAll_always (dispatches : List (OperationId × OperationDispatch)) (h : DbInv db)
    (hnodup : (dispatches.map Prod.fst).Nodup)
    (hcurrent : ∀ e ∈ dispatches, db.getDispatch e.1 = some e.2) :
    Program.Always (recoverAll now dispatches) db
      (Sweeping now db (dispatches.map Prod.fst))
      (SweepEnds now db (dispatches.map Prod.fst)) := by
  induction dispatches generalizing db with
  | nil =>
    refine Program.always_pure ⟨⟨h, fun _ _ => ⟨rfl, rfl⟩, fun _ => rfl, fun _ hk => hk,
      fun _ hr => hr, fun hdelivered => hdelivered⟩, ?_, fun _ => rfl⟩
    exact fun _ k hk => absurd hk List.not_mem_nil
  | cons e rest ih =>
    obtain ⟨id, d⟩ := e
    obtain ⟨hid, hnodup⟩ := List.nodup_cons.mp hnodup
    have hd : db.getDispatch id = some d := hcurrent (id, d) List.mem_cons_self
    refine Program.always_bind ((recoverDispatch_always h hd).mono
      (fun db' hp => hp.sweeping hd List.mem_cons_self) ?_)
    intro r db₁ hends
    match r with
    | .error e =>
      obtain ⟨hpassing, hint, hway⟩ := hends
      refine ⟨hpassing.sweeping hd List.mem_cons_self, fun hr => absurd hr (by simp), ?_⟩
      intro hstart
      obtain ⟨-, hrefused, hoverfull⟩ := hstart id d hd hint
      exact (hway.elim hrefused hoverfull).elim
    | .ok u =>
      have hpassed : Passed db id d db₁ := hends
      refine (ih hpassed.dbInv hnodup ?_).mono (fun db' hs => hs.after hpassed hd) ?_
      · intro e he
        have hne : e.1 ≠ id := by
          rintro rfl
          exact hid (List.mem_map.mpr ⟨e, he, rfl⟩)
        exact (hpassed.frame e.1 hne).1.trans (hcurrent e (List.mem_cons_of_mem _ he))
      · intro r db' hs
        refine ⟨hs.toSweeping.after hpassed hd, ?_, fun hstart => hs.completes
          (hpassed.startable hstart)⟩
        intro hr k hk
        obtain rfl | hk := List.mem_cons.mp hk
        · -- the rest of the pass leaves the first dispatch as it is
          rw [Database.Interrupted, Database.statusOf, (hs.frame k hid).1]
          exact hpassed.settled
        · exact hs.settled hr k hk

/-- The dispatches that the pass reads are those of the table. -/
theorem mem_listOperationDispatches {e : OperationId × OperationDispatch} :
    e ∈ listOperationDispatches db ↔ db.getDispatch e.1 = some e.2 := by
  rw [listOperationDispatches, List.mem_insertionSort, List.mem_map, Database.getDispatch,
    Table.lookup_eq_some_iff]
  constructor
  · rintro ⟨e', he', rfl⟩
    exact he'
  · exact fun he => ⟨_, he, rfl⟩

theorem nodup_listOperationDispatches : ((listOperationDispatches db).map Prod.fst).Nodup := by
  have hperm := (List.perm_insertionSort laterDispatch
    (db.dispatches.entries.map fun e => (e.1, e.2))).map Prod.fst
  refine hperm.nodup_iff.mpr ?_
  rw [List.map_map]
  exact db.dispatches.nodupKeys

/-- **The startup pass**: it keeps the invariant at every transaction; if it returns, no dispatch
is pending or running; and if nothing is in its way it returns, and every dispatch that waits for
recovery has an operation. -/
theorem recoverStartup_always (h : DbInv db) :
    Program.Always (recoverStartup now) db
      (Sweeping now db ((listOperationDispatches db).map Prod.fst))
      (SweepEnds now db ((listOperationDispatches db).map Prod.fst)) :=
  Program.always_bind (Program.always_read
    (recoverAll_always _ h nodup_listOperationDispatches
      fun _ he => mem_listOperationDispatches.mp he))

/-- After a pass that returned nothing is pending or running. -/
theorem SweepEnds.not_interrupted {r : Except Error Unit}
    (h : SweepEnds now db ((listOperationDispatches db).map Prod.fst) r db') (hr : r = .ok ())
    (k : OperationId) : ¬ db'.Interrupted k := by
  cases hd : db.getDispatch k with
  | some d =>
    exact h.settled hr k (List.mem_map.mpr ⟨(k, d), mem_listOperationDispatches.mpr hd, rfl⟩)
  | none =>
    have hk : k ∉ (listOperationDispatches db).map Prod.fst := by
      intro hk
      obtain ⟨e, he, rfl⟩ := List.mem_map.mp hk
      rw [mem_listOperationDispatches, hd] at he
      cases he
    rintro ⟨status, hstatus, -⟩
    rw [Database.statusOf, (h.frame k hk).1, hd] at hstatus
    cases hstatus

end Sweep

end Controller
end OpenstackPlatform
