import OpenstackPlatform.Controller.JournalRun

/-!
# Scope exclusivity

A scope has at most one unfinished foreground operation and at most one finishing one, and at most
one active dispatch of each sort.  The indexes enforce it, so the question is whether an index is
ever what rejects a write: the functions are meant to refuse first, with an error that names the
operation in the way.

Three of the four indexes never reject a write of any run.  The fourth can.  A worker marks its
accepted operation succeeded in one transaction and its dispatch finished in a later one.  Between
the two the scope has an active finishing dispatch whose operation has ended, and
`enqueue_operation_dispatch` and `begin_operation` look only at the operation: they let the next
deployment start, and when it is accepted in its turn `mark_operation_finishing` breaks
`one_finishing_dispatch_per_scope`.

* `beginsSettled`: a deployment or an enable begins only when no dispatch in its scope is left in
  that state.
* `scope_exclusive_of_run`: in every run whose steps meet it, no index rejects a write.
* `finishing_dispatch_rejects_acceptance`: a run in which the fourth index rejects one.
-/

namespace OpenstackPlatform
namespace Controller

open Library

/-- At most one operation and at most one active dispatch of each sort in every scope. -/
structure ScopeExclusive (db : Database) : Prop where
  operation : ∀ id id' o o', db.getOperation id = some o → db.getOperation id' = some o' →
    o.nonterminal = true → o'.nonterminal = true → o.scope = o'.scope →
    o.finishing = o'.finishing → id = id'
  dispatch : ∀ id id' d d', db.getDispatch id = some d → db.getDispatch id' = some d' →
    d.status.active = true → d'.status.active = true → d.scope = d'.scope →
    d.finishing = d'.finishing → id = id'

/-- The indexes enforce exclusivity. -/
theorem scopeExclusive (db : Database) : ScopeExclusive db where
  operation id id' o o' ho ho' hn hn' hscope hfin := by
    cases hf : o'.finishing with
    | false =>
      refine db.one_unfinished_operation.key_eq ho ho' (i := o'.scope) ?_ ?_
      · exact Operation.unfinishedScope_eq_some.mpr ⟨hn, hfin.trans hf, hscope⟩
      · exact Operation.unfinishedScope_eq_some.mpr ⟨hn', hf, rfl⟩
    | true =>
      refine db.one_finishing_operation.key_eq ho ho' (i := o'.scope) ?_ ?_
      · exact Operation.finishingScope_eq_some.mpr ⟨hn, hfin.trans hf, hscope⟩
      · exact Operation.finishingScope_eq_some.mpr ⟨hn', hf, rfl⟩
  dispatch id id' d d' hd hd' ha ha' hscope hfin := by
    cases hf : d'.finishing with
    | false =>
      refine db.one_active_dispatch.key_eq hd hd' (i := d'.scope) ?_ ?_
      · exact OperationDispatch.activeScope_eq_some.mpr ⟨ha, hfin.trans hf, hscope⟩
      · exact OperationDispatch.activeScope_eq_some.mpr ⟨ha', hf, rfl⟩
    | true =>
      refine db.one_finishing_dispatch.key_eq hd hd' (i := d'.scope) ?_ ?_
      · exact OperationDispatch.finishingScope_eq_some.mpr ⟨ha, hfin.trans hf, hscope⟩
      · exact OperationDispatch.finishingScope_eq_some.mpr ⟨ha', hf, rfl⟩

/-! ## The condition -/

/-- The operation under an ID has ended, or never began. -/
def ended (db : Database) (id : OperationId) : Bool :=
  match db.getOperation id with
  | some o => !o.nonterminal
  | none => true

/-- No active finishing dispatch of the scope belongs to an operation that has ended. -/
def settled (db : Database) (scope : String) : Bool :=
  (Table.find? db.dispatches fun id d =>
    d.finishingScope == some scope && ended db id).isNone

/-- A deployment or an enable begins only in a settled scope. -/
def beginsSettled (db : Database) : Call → Bool
  | .beginOperation r =>
    !(r.kind == "app.deploy" || r.kind == "app.enable") || settled db r.scope
  | _ => true

/-- The steps of a run that meet the condition. -/
def SettledStep : Database → Call → Database → Prop :=
  restrict JournalStep fun db call => beginsSettled db call = true

variable {db : Database}

/-- In a settled scope an active finishing dispatch belongs to a finishing operation. -/
theorem finishingOperation_of_settled (hinv : Inv db) {scope : String}
    (hsettled : settled db scope = true) (h : FinishingDispatch db scope) :
    FinishingOperation db scope := by
  obtain ⟨id, d, hd, hs⟩ := h
  rw [settled, Option.isNone_iff_eq_none, Table.find?_eq_none] at hsettled
  have hended := hsettled id d hd
  rw [hs, beq_self_eq_true, Bool.true_and, ended] at hended
  obtain ⟨-, hfin, rfl⟩ := OperationDispatch.finishingScope_eq_some.mp hs
  split at hended
  · rename_i o ho
    obtain ⟨-, hscope, hflag, -⟩ := hinv.agree id d o hd ho
    refine ⟨id, o, ho, Operation.finishingScope_eq_some.mpr ?_⟩
    exact ⟨by simpa using hended, hflag ▸ hfin, hscope.symm⟩
  · cases hended

/-! ## Runs that meet the condition -/

/-- What runs that meet the condition keep besides `Inv`: the foreground operations may stand next
to the active finishing dispatches of their scopes. -/
structure SettledInv (db : Database) : Prop where
  inv : Inv db
  dispatches : Guarded db (FinishingDispatch db)

theorem settledInv_empty : SettledInv Database.empty :=
  ⟨inv_empty, fun id o h => by simp [Database.empty, Database.getOperation] at h⟩

/-- A change keeps the invariant when what it begins, it begins in a settled scope. -/
theorem Change.settledInv {db' : Database} {begun : Option BeginOperation}
    (hc : Change db begun db') (h : SettledInv db)
    (hbegin : ∀ r, begun = some r → r.kind = "app.deploy" ∨ r.kind = "app.enable" →
      settled db r.scope = true) : SettledInv db' where
  inv := hc.inv h.inv
  dispatches := by
    refine hc.guarded h.dispatches (fun _ => hc.finishingDispatch h.inv) ?_
    intro r hr hadmission
    refine Change.guards_of_admission hadmission fun hb hkind => ?_
    exact finishingOperation_of_settled h.inv (hbegin r hr hkind) hb

/-- A step that meets the condition keeps the invariant. -/
theorem SettledStep.settledInv {db' : Database} {call : Call} (hstep : SettledStep db call db')
    (h : SettledInv db) : SettledInv db' := by
  obtain ⟨⟨hissued, hok | ⟨e, -, rfl⟩⟩, hsettled⟩ := hstep
  · obtain ⟨r, rfl, hc⟩ | hcs := Call.changes h.inv hissued hok
    · refine hc.settledInv h ?_
      rintro r' ⟨⟩ hkind
      simp only [beginsSettled, Bool.or_eq_true, Bool.not_eq_true'] at hsettled
      refine hsettled.resolve_left fun hno => ?_
      simp only [Bool.or_eq_false_iff, beq_eq_false_iff_ne] at hno
      exact hkind.elim hno.1 hno.2
    · clear hok
      induction hcs with
      | refl => exact h
      | tail _ hc ih => exact hc.settledInv ih fun r hr => absurd hr (by simp)
  · exact h

theorem settledInv_of_run {calls : List Call} (h : Run SettledStep Database.empty calls db) :
    SettledInv db :=
  h.invariant settledInv_empty fun _ _ _ hinv hstep => SettledStep.settledInv hstep hinv

/-! ## No index rejects a write -/

/-- The application of a stopped scope, by its ID. -/
theorem stoppedScope_cases {scope : String} (h : Call.stoppedScope db scope = true) :
    ∃ id a, scope = "app-" ++ id ∧ db.applications.lookup id = some a ∧
      notTombstoned db id = true ∧ a.desiredRunning = false := by
  simp only [Call.stoppedScope, Bool.and_eq_true, beq_iff_eq] at h
  obtain ⟨⟨hscope, hlive⟩, hrow⟩ := h
  split at hrow
  · rename_i a ha
    exact ⟨_, a, hscope, ha, hlive, by simpa using hrow⟩
  · cases hrow

/-- What is marked finishing is alone in a guarded scope. -/
theorem not_busy_of_finishingIssued {busy : String → Prop} (h : Guarded db busy) {id : OperationId}
    {o : Operation} (hissued : Call.finishingIssued db id = true)
    (ho : db.getOperation id = some o) : ¬ busy o.scope := by
  intro hb
  obtain ⟨hn, hf, -, hkind | ⟨hkind, hstopped⟩⟩ := Change.foreground_of_finishingIssued hissued ho
  · exact (h id o ho (Operation.unfinishedScope_self.mpr ⟨hn, hf⟩)).deploy hkind hb
  · obtain ⟨a, row, hscope, hrow, hlive, hoff⟩ := stoppedScope_cases hstopped
    have hon := (h id o ho (Operation.unfinishedScope_self.mpr ⟨hn, hf⟩)).enable hkind hb a row
      hscope hrow hlive
    rw [hoff] at hon
    exact Bool.false_ne_true hon

/-- No index of `operations` rejects the mark of an accepted operation. -/
theorem exists_put_finishing (hinv : Inv db) {id : OperationId} {o : Operation}
    (hissued : Call.finishingIssued db id = true) (ho : db.getOperation id = some o) :
    ∃ db₁, db.putOperation id { o with finishing := true, cleanupState := "pending" } =
      .ok db₁ := by
  have hfree := not_busy_of_finishingIssued hinv.guarded hissued ho
  refine Database.exists_putOperation ?_ ?_
  · intro k p s _ _ hs
    exact absurd (Operation.unfinishedScope_eq_some.mp hs).2.1 (by simp)
  · intro k p s _ hp hs hps
    obtain ⟨-, -, rfl⟩ := Operation.finishingScope_eq_some.mp hs
    exact hfree ⟨k, p, hp, hps⟩

/-- No index rejects the mark of an accepted operation when its scope has no other active finishing
dispatch. -/
theorem indexSafe_markOperationFinishing (h : SettledInv db) {id : OperationId}
    (hissued : Call.finishingIssued db id = true) : IndexSafe (markOperationFinishing id db) := by
  rw [markOperationFinishing]
  split
  · rename_i o ho
    split
    · refine .bind (.of_exists (exists_put_finishing h.inv hissued ho)) fun db₁ hput => ?_
      have hsame := Database.same_putOperation hput
      split
      · rename_i d hd
        rw [hsame.getDispatch] at hd
        have hfree := not_busy_of_finishingIssued h.dispatches hissued ho
        refine .of_exists (Database.exists_putDispatch ?_ ?_)
        · intro k e s _ _ hs
          exact absurd (OperationDispatch.activeScope_eq_some.mp hs).2.1 (by simp)
        · intro k e s _ he hs hes
          obtain ⟨-, -, rfl⟩ := OperationDispatch.finishingScope_eq_some.mp hs
          rw [hsame.getDispatch] at he
          refine hfree ⟨k, e, he, ?_⟩
          rw [hes]
          exact congrArg some (h.inv.agree id d o hd ho).2.1
      · exact .ok _
    · exact .error rfl
  · exact .error rfl

/-- No index rejects an issued call. -/
theorem indexSafe_run (h : SettledInv db) {call : Call} (hissued : call.issued db = true) :
    IndexSafe (call.run db) := by
  cases call with
  | claimIdempotencyRequest id fp =>
    refine .bind (.require rfl) fun _ _ => .bind (.require rfl) fun _ _ => ?_
    split
    · exact .bind (.require rfl) fun _ _ => .ok _
    · exact .ok _
  | enqueueOperationDispatch id kind scope now =>
    intro e he
    refine indexSafe_enqueueOperationDispatch id kind scope now db e ?_
    simp only [Call.run] at he
    cases henq : enqueueOperationDispatch id kind scope now db with
    | ok result => simp [henq, Except.map] at he
    | error e' => simpa [henq, Except.map] using he
  | requeueRecoveryDispatch id kind scope automatic now =>
    exact indexSafe_requeueRecoveryDispatch id kind scope automatic now db
  | setOperationDispatchStatus id status now =>
    refine indexSafe_setOperationDispatchStatus fun d hd => ?_
    simp only [Call.issued, hd] at hissued
    exact Call.active_of_statusIssued h.inv hd hissued
  | beginOperation r => exact indexSafe_beginOperation r db
  | renewOperationDeadline id deadlineAt =>
    exact indexSafe_renewOperationDeadline id deadlineAt db
  | checkpointOperation id c => exact indexSafe_checkpointOperation id c db
  | markOperationFinishing id => exact indexSafe_markOperationFinishing h hissued
  | markRecoveryRequired id phase => exact indexSafe_finishOperation _ _ _ _ _
  | recordFinishingFailure id => exact indexSafe_recordFinishingFailure id db
  | markSucceeded id cleanup => exact indexSafe_finishOperation _ _ _ _ _
  | markFailed id cleanup => exact indexSafe_markFailed id cleanup db
  | schedule id now => exact indexSafe_schedule id now db
  | putApplication id a => exact .ok _
  | retireSlug slug id => exact .ok _

/-- **Scope exclusivity.**  In every state reached by a run in which deployments and enables begin
in settled scopes, every scope has at most one operation and one active dispatch of each sort, and
no index rejects what is called next. -/
theorem scope_exclusive_of_run {calls : List Call} {db : Database}
    (h : Run SettledStep Database.empty calls db) :
    ScopeExclusive db ∧
      ∀ call : Call, call.issued db = true → ∀ e, call.run db = .error e →
        e.fromIndex = false :=
  ⟨scopeExclusive db, fun _ hissued => indexSafe_run (settledInv_of_run h) hissued⟩

/-- The calls of one accepted deployment, up to the transaction that ends its operation. -/
def acceptedDeployment (id : OperationId) (scope : String) : List Call :=
  [.claimIdempotencyRequest id
      "0000000000000000000000000000000000000000000000000000000000000000",
    .enqueueOperationDispatch id "app.deploy" scope 0,
    .setOperationDispatchStatus id .running 0,
    .beginOperation ⟨id, "app.deploy", scope, "validated", "", .empty, none⟩,
    .markOperationFinishing id,
    .markSucceeded id "confirmed"]

/-- A whole deployment in a scope of its own meets the condition. -/
theorem scope_exclusive_of_first_deployment :
    ScopeExclusive (performAll
      (acceptedDeployment "00000000-0000-4000-8000-000000000001" "app-a") Database.empty) :=
  (scope_exclusive_of_run (run_performAll (by decide +kernel))).1

/-! ## The fourth index -/

/-- One accepted deployment has ended and its dispatch is still running; the next one of the same
scope has begun. -/
def overtaking : List Call :=
  acceptedDeployment "00000000-0000-4000-8000-000000000001" "app-a" ++
    (acceptedDeployment "00000000-0000-4000-8000-000000000002" "app-a").take 4

/-- **The fourth index rejects an acceptance.**  The overtaking deployment cannot be marked
finishing: the dispatch of the first one still holds the scope's finishing place. -/
theorem finishing_dispatch_rejects_acceptance :
    Run JournalStep Database.empty overtaking (performAll overtaking Database.empty) ∧
      (Call.markOperationFinishing "00000000-0000-4000-8000-000000000002").issued
        (performAll overtaking Database.empty) = true ∧
      (Call.markOperationFinishing "00000000-0000-4000-8000-000000000002").run
        (performAll overtaking Database.empty) =
          .error (.integrity .oneFinishingDispatchPerScope) := by
  refine ⟨(@run_performAll (fun _ _ => true) _ _ (by decide +kernel)).of_restrict,
    by decide +kernel, eq_error_of_raised ?_⟩
  decide +kernel

end Controller
end OpenstackPlatform
