import OpenstackPlatform.Controller.RestartRecovery
import OpenstackPlatform.Library.Ranking

/-!
# Retries of accepted operations

An accepted operation is retried at most five times by the executor itself.  The number of
attempts is in the operation's refs, where a requeue, a failure, a checkpoint and the startup pass
all write, each in a transaction of its own.  Nothing else remembers it: a checkpoint that puts
refs without the record into the place of the old ones sets the attempts back to none, and a record
that does not fit is never written.  Both are outside the condition of the results here.

* `retriesFit`: that condition, on a step and the state before it.
* `automaticRetries`: the automatic requeues of an operation that a run has seen.
* `retryCount_eq_automaticRetries`: the recorded counter is exactly that number.
* `Tracked`: whatever is pending or running is an item of the executor, so that an idle executor
  leaves no accepted operation behind.
* `Waits`: what an accepted operation of an idle executor looks like.
* `finishing_retries_of_run`: the three together, in every run whose retry records fit.
* `crowded_refs_strand_operation`: an accepted operation that is stranded by its own refs.
-/

namespace OpenstackPlatform
namespace Controller

open Library

/-! ## The condition -/

/-- The retry records fit: a worker closes an accepted operation whose refs have room for the
record, a checkpoint does not drop the attempts that its operation has recorded, and an operation is
accepted by the work of its own dispatch. -/
def retriesFit (s : System) : Event → Bool
  | .advance n now =>
    match s.executor with
    | some x =>
      match x.workers[n]? with
      | some (.busy id (.closing _)) => retryFits now s.db id
      | _ => true
    | none => true
  | .call (.checkpointOperation id c) => (Call.checkpointOperation id c).carriesRetries s.db
  | .call (.markOperationFinishing id) => (s.db.getDispatch id).isSome
  | _ => true

/-- The steps in which the retry records fit. -/
def RetryingStep : System → Event × Outcome → System → Prop :=
  restrict SystemStep fun s l => retriesFit s l.1 = true

theorem carriesRetries_of_fit {s : System} {call : Call} (h : retriesFit s (.call call) = true) :
    call.carriesRetries s.db = true := by
  cases call with
  | checkpointOperation id c => exact h
  | _ => rfl

/-! ## The counter -/

/-- The label of an automatic requeue of this operation. -/
def retriesNow (id : OperationId) : Event × Outcome → Bool
  | (.resubmitRecovery k _ _ automatic _, .done) => automatic && k == id
  | _ => false

/-- The automatic requeues of an operation in a run. -/
def automaticRetries (id : OperationId) (labels : List (Event × Outcome)) : Nat :=
  labels.countP (retriesNow id)

section Counter

variable {s s' : System} {event : Event} {o : Outcome}

/-- One step adds one to the counter when it is an automatic requeue, and nothing otherwise. -/
theorem StepCase.retryCount (hinv : SysInv s) (hfit : retriesFit s event = true)
    (hcase : StepCase s event o s') (k : OperationId) :
    s'.db.retryCount k = s.db.retryCount k + if retriesNow k (event, o) then 1 else 0 := by
  cases hcase with
  | raised => simp [retriesNow]
  | replayed => rfl
  | @called call db' hissued hok =>
    obtain ⟨-, hrefs, hwrites, -⟩ := callIssued_cases hissued
    exact call.retryCount_of_not_retries hrefs (carriesRetries_of_fit hfit) hok
      (Call.retries_of_writesStatus hwrites k)
  | @enqueued x id kind scope now db' hx hfree hok =>
    have hrun : (Call.enqueueOperationDispatch id kind scope now).run s.db = .ok db' := by
      simp only [Call.run, hok]
      rfl
    exact Call.retryCount_of_not_retries _ rfl rfl hrun rfl
  | requeued hx hfree hissued hok => exact retryCount_requeue hissued hok k
  | took => rfl
  | ended _ _ hevent =>
    obtain ⟨rfl, -⟩ | ⟨rfl, -⟩ := hevent
    · rfl
    · rfl
  | @advanced x n now id stage stage' db' hx hn hworking hadvance =>
    have hheld := (hinv.holds x hx).held id stage (List.mem_of_getElem? hn)
    exact (advance_spec hinv.dbInv hheld hworking hadvance).retryCount k
  | @left x n now id stage db' escaped hx hn hworking hadvance =>
    have hheld := (hinv.holds x hx).held id stage (List.mem_of_getElem? hn)
    exact (advance_spec hinv.dbInv hheld hworking hadvance).retryCount k
  | closed => rfl
  | stopped => rfl
  | started => exact (recoverStartup_always hinv.dbInv).2.retryCount k
  | startupRaised => exact (recoverStartup_always hinv.dbInv).2.retryCount k
  | @startupStopped n now db' hx hdb =>
    obtain rfl | hdb := List.mem_cons.mp hdb
    · rfl
    · exact ((recoverStartup_always hinv.dbInv).1 db' hdb).retryCount k

/-- The recorded counter is the number of automatic requeues. -/
theorem retryCount_eq_automaticRetries {labels : List (Event × Outcome)}
    (h : Run RetryingStep System.initial labels s) (k : OperationId) :
    s.db.retryCount k = automaticRetries k labels := by
  have htrace := h.invariant_trace (I := fun labels s =>
    SysInv s ∧ s.db.retryCount k = automaticRetries k labels) ⟨sysInv_initial, rfl⟩ (by
      rintro labels t ⟨event, o⟩ u ⟨hinv, hcount⟩ ⟨hstep, hfit⟩
      have hcase := step_cases hinv hstep
      refine ⟨hcase.sysInv hinv, ?_⟩
      rw [hcase.retryCount hinv hfit, hcount, automaticRetries, automaticRetries, List.countP_append,
        List.countP_singleton])
  exact htrace.2

/-- No operation is retried automatically more often than there are delays. -/
theorem automaticRetries_le {labels : List (Event × Outcome)}
    (h : Run RetryingStep System.initial labels s) (k : OperationId) :
    automaticRetries k labels ≤ retryDelays.length := by
  rw [← retryCount_eq_automaticRetries h k]
  cases ho : s.db.getOperation k with
  | none =>
    rw [Database.retryCount, ho]
    exact Nat.zero_le _
  | some operation =>
    rw [retryCount_of_getOperation ho]
    exact ((sysInv_of_run h.of_restrict).dbInv.retries k operation ho).bound

end Counter

/-! ## What an idle executor leaves behind -/

/-- Whatever is pending or running is an item of the executor, and an accepted operation has a
dispatch. -/
structure Tracked (s : System) : Prop where
  items : ∀ x, s.executor = some x → ∀ k, s.db.Interrupted k → k ∈ x.items
  dispatched : ∀ k o, s.db.getOperation k = some o → o.finishing = true →
    (s.db.getDispatch k).isSome = true

section Tracked

variable {now : Timestamp} {db db' : Database} {id : OperationId} {stage : Stage}

/-- A worker that leaves the `finally` block has settled its dispatch. -/
theorem advance_settles {escaped : Option Error} (h : DbInv db) (hheld : Held db id stage)
    (hfits : (∃ e, stage = .closing e) → retryFits now db id = true)
    (hadvance : advance now db id stage = (db', .leave escaped)) : ¬ db'.Interrupted id := by
  cases advance_leaves hadvance with
  | closed hpending hok =>
    exact not_interrupted (Advanced.statusOf_set hok).1 (closingStatus_cases _)
  | settled hok => exact not_interrupted (Advanced.statusOf_set hok).1 (.inr rfl)
  | @unset _ status e hstatus herror =>
    obtain ⟨db₁, hok⟩ : ∃ db₁, setOperationDispatchStatus id status now db = .ok db₁ :=
      exists_settle h hheld.interrupted hstatus
    rw [hok] at herror
    cases herror
  | @unscheduled e _ o ho hf hn herror =>
    have hroom := hfits ⟨e, rfl⟩
    simp only [retryFits, ho, hf, hn, Bool.and_self, Bool.not_true, Bool.false_or,
      isOk_iff] at hroom
    obtain ⟨⟨⟩, hroom⟩ := hroom
    obtain ⟨db₁, hput⟩ := (amends_scheduledRow hn now).exists_put ho
    rw [schedule_of_pending ho hf hn, hroom] at herror
    rw [show (Except.ok () >>= fun _ => db.putOperation id (scheduledRow now o)) = .ok db₁ from
      hput] at herror
    cases herror

/-- Only `mark_operation_finishing` accepts an operation. -/
theorem finishing_of_run {call : Call} (hok : call.run db = .ok db') {k : OperationId}
    {o' : Operation} (ho' : db'.getOperation k = some o') (hf' : o'.finishing = true) :
    (∃ o, db.getOperation k = some o ∧ o.finishing = true) ∨ call = .markOperationFinishing k := by
  have hput : ∀ {id : OperationId} {o₁ : Operation} {db₁ : Database},
      db.putOperation id o₁ = .ok db₁ → db₁.getOperation k = some o' →
      (o₁.finishing = true → ∃ o, db.getOperation id = some o ∧ o.finishing = true) →
      ∃ o, db.getOperation k = some o ∧ o.finishing = true := by
    intro id o₁ db₁ hput ho' hkeeps
    rw [Database.getOperation_put hput] at ho'
    split at ho'
    · rename_i hk
      cases ho'
      rw [hk]
      exact hkeeps hf'
    · exact ⟨o', ho', hf'⟩
  cases call with
  | claimIdempotencyRequest id fp =>
    obtain rfl | ⟨-, rfl⟩ := claimIdempotencyRequest_ok hok
    · exact .inl ⟨o', ho', hf'⟩
    · exact .inl ⟨o', ho', hf'⟩
  | enqueueOperationDispatch id kind scope now =>
    obtain ⟨created, hok⟩ := Call.enqueue_of_run hok
    obtain ⟨-, rfl, -⟩ | ⟨-, -, -, -, -, -, -, -, request, db₁, -, hput', rfl⟩ :=
      enqueueOperationDispatch_ok hok
    · exact .inl ⟨o', ho', hf'⟩
    · exact .inl ⟨o', ((Database.same_putDispatch hput').getOperation k).symm.trans ho', hf'⟩
  | requeueRecoveryDispatch id kind scope automatic now =>
    obtain ⟨d, o, -, ho, -, ⟨hf, retry, db₁, -, hput₁, hput'⟩ | ⟨-, hput'⟩⟩ :=
      requeueRecoveryDispatch_ok hok
    · rw [(Database.same_putDispatch hput').getOperation] at ho'
      exact .inl (hput hput₁ ho' fun hf => ⟨o, ho, hf⟩)
    · rw [(Database.same_putDispatch hput').getOperation] at ho'
      exact .inl ⟨o', ho', hf'⟩
  | setOperationDispatchStatus id status now =>
    obtain ⟨d, -, hput'⟩ := setOperationDispatchStatus_ok hok
    rw [(Database.same_putDispatch hput').getOperation] at ho'
    exact .inl ⟨o', ho', hf'⟩
  | beginOperation r =>
    obtain ⟨-, -, -, -, hput₁⟩ := beginOperation_ok hok
    exact .inl (hput hput₁ ho' fun hf => absurd hf (by simp [BeginOperation.row]))
  | renewOperationDeadline id deadlineAt =>
    obtain ⟨o, ho, -, hput₁⟩ := renewOperationDeadline_ok hok
    exact .inl (hput hput₁ ho' fun hf => ⟨o, ho, hf⟩)
  | checkpointOperation id c =>
    obtain ⟨o, ho, -, hput₁⟩ := checkpointOperation_ok hok
    exact .inl (hput hput₁ ho' fun hf => ⟨o, ho, hf⟩)
  | markOperationFinishing id =>
    by_cases hk : k = id
    · exact .inr (by rw [hk])
    · have hsame := Call.frame (.markOperationFinishing id) hok
        fun he => hk (Option.some.inj he).symm
      exact .inl ⟨o', hsame.2.symm.trans ho', hf'⟩
  | markRecoveryRequired id phase =>
    obtain ⟨o, ho, -, hput₁⟩ := finishOperation_ok hok
    exact .inl (hput hput₁ ho' fun hf => ⟨o, ho, hf⟩)
  | recordFinishingFailure id =>
    obtain ⟨o, ho, -, -, hput₁⟩ := recordFinishingFailure_ok hok
    exact .inl (hput hput₁ ho' fun hf => ⟨o, ho, hf⟩)
  | markSucceeded id cleanup =>
    obtain ⟨o, ho, -, hput₁⟩ := finishOperation_ok hok
    exact .inl (hput hput₁ ho' fun hf => ⟨o, ho, hf⟩)
  | markFailed id cleanup =>
    obtain ⟨o, ho, -, hput₁⟩ := finishOperation_ok (markFailed_ok hok)
    exact .inl (hput hput₁ ho' fun hf => ⟨o, ho, hf⟩)
  | schedule id now =>
    obtain rfl | ⟨o, ho, -, -, hput₁⟩ := schedule_ok hok
    · exact .inl ⟨o', ho', hf'⟩
    · exact .inl (hput hput₁ ho' fun hf => ⟨o, ho, hf⟩)
  | putApplication id a =>
    cases hok
    exact .inl ⟨o', ho', hf'⟩
  | retireSlug slug id =>
    cases hok
    exact .inl ⟨o', ho', hf'⟩

end Tracked

section Step

variable {s s' : System} {event : Event} {o : Outcome}

/-- Writes to the rows of a dispatch leave the accepted operations with theirs. -/
theorem dispatched_of_frame {db db' : Database} (ids : List OperationId)
    (h : ∀ k o, db.getOperation k = some o → o.finishing = true →
      (db.getDispatch k).isSome = true)
    (hframe : ∀ k, k ∉ ids → Call.SameRows db db' k)
    (hids : ∀ k ∈ ids, (db'.getDispatch k).isSome = true) (k : OperationId) (o' : Operation)
    (ho' : db'.getOperation k = some o') (hf : o'.finishing = true) :
    (db'.getDispatch k).isSome = true := by
  by_cases hk : k ∈ ids
  · exact hids k hk
  · rw [(hframe k hk).1]
    exact h k o' ((hframe k hk).2.symm.trans ho') hf

/-- The dispatch of an interrupted item. -/
theorem Database.Interrupted.isSome {db : Database} {id : OperationId} (h : db.Interrupted id) :
    (db.getDispatch id).isSome = true := by
  obtain ⟨status, hstatus, -⟩ := h
  obtain ⟨d, hd, -⟩ := DbInv.exists_dispatch hstatus
  rw [hd]
  rfl

/-- A call of the services keeps what is tracked. -/
theorem Tracked.called {call : Call} {db' : Database} (h : Tracked s)
    (hfit : retriesFit s (.call call) = true) (hissued : s.callIssued call = true)
    (hok : call.run s.db = .ok db') : Tracked { s with db := db' } := by
  obtain ⟨-, -, hwrites, -⟩ := callIssued_cases hissued
  have hstatus := Call.status_of_run call hwrites hok
  refine ⟨?_, ?_⟩
  · rintro x hx k ⟨status, hs, hint⟩
    exact h.items x hx k ⟨status, (hstatus k).symm.trans hs, hint⟩
  · intro k o' ho' hf
    refine Call.present_of_status hstatus k ?_
    obtain ⟨o, ho, hf⟩ | rfl := finishing_of_run hok ho' hf
    · exact h.dispatched k o ho hf
    · exact hfit

/-- An item that was accepted is tracked. -/
theorem Tracked.accepted {x : Executor} {db' : Database} {id : OperationId} (h : Tracked s)
    (hx : s.executor = some x) (hi : db'.Interrupted id)
    (hframe : ∀ k, k ≠ id → Call.SameRows s.db db' k) :
    Tracked ⟨db', some (x.accept id)⟩ := by
  refine ⟨?_, ?_⟩
  · rintro _ ⟨⟩ k hk
    by_cases hne : k = id
    · exact mem_items_accept.mpr (.inr hne)
    · rw [Database.Interrupted, Database.statusOf, (hframe k hne).1] at hk
      exact mem_items_accept.mpr (.inl (h.items x hx k hk))
  · refine dispatched_of_frame [id] h.dispatched ?_ ?_
    · exact fun k hk => hframe k fun he => hk (List.mem_singleton.mpr he)
    · intro k hk
      rw [List.mem_singleton.mp hk]
      exact hi.isSome

/-- A sweep of the startup pass leaves the accepted operations with their dispatches. -/
theorem Sweeping.dispatched {now : Timestamp} {db' : Database}
    (h : Sweeping now s.db ((listOperationDispatches s.db).map Prod.fst) db')
    (htracked : Tracked s) (k : OperationId) (o' : Operation)
    (ho' : db'.getOperation k = some o') (hf : o'.finishing = true) :
    (db'.getDispatch k).isSome = true := by
  refine dispatched_of_frame _ htracked.dispatched h.frame ?_ k o' ho' hf
  intro k hk
  obtain ⟨e, he, rfl⟩ := List.mem_map.mp hk
  refine h.present e.1 ?_
  rw [mem_listOperationDispatches.mp he]
  rfl

/-- Every step whose retry record fits keeps what is tracked. -/
theorem StepCase.tracked (hinv : SysInv s) (h : Tracked s) (hfit : retriesFit s event = true)
    (hcase : StepCase s event o s') : Tracked s' := by
  cases hcase with
  | raised => exact h
  | replayed => exact h
  | called hissued hok => exact h.called hfit hissued hok
  | enqueued hx hfree hok =>
    obtain ⟨-, hpending, hframe⟩ := enqueued_rows hok
    exact h.accepted hx ⟨_, hpending, rfl⟩ hframe
  | requeued hx hfree hissued hok =>
    obtain ⟨-, hpending, hframe⟩ := requeued_rows hok
    exact h.accepted hx ⟨_, hpending, rfl⟩ hframe
  | @took x n id queue hx hn hq =>
    refine ⟨?_, h.dispatched⟩
    rintro _ ⟨⟩ k hk
    exact (items_take hn hq).mem_iff.mpr (h.items x hx k hk)
  | @ended x n id event stage hx hn hevent =>
    refine ⟨?_, h.dispatched⟩
    rintro _ ⟨⟩ k hk
    exact (Holds.items_move hn).mem_iff.mpr (h.items x hx k hk)
  | @advanced x n now id stage stage' db' hx hn hworking hadvance =>
    have hw := List.mem_of_getElem? hn
    have hheld := (hinv.holds x hx).held id stage hw
    have hspec := advance_spec hinv.dbInv hheld hworking hadvance
    refine ⟨?_, ?_⟩
    · rintro _ ⟨⟩ k hk
      refine (Holds.items_move hn).mem_iff.mpr ?_
      by_cases hne : k = id
      · rw [hne]
        exact Holds.mem_items hw
      · rw [Database.Interrupted, Database.statusOf, (hspec.frame k hne).1] at hk
        exact h.items x hx k hk
    · refine dispatched_of_frame [id] h.dispatched ?_ ?_
      · exact fun k hk => hspec.frame k fun he => hk (List.mem_singleton.mpr he)
      · intro k hk
        rw [List.mem_singleton.mp hk]
        exact hspec.present id hheld.interrupted.isSome
  | @left x n now id stage db' escaped hx hn hworking hadvance =>
    have hw := List.mem_of_getElem? hn
    have hheld := (hinv.holds x hx).held id stage hw
    have hspec := advance_spec hinv.dbInv hheld hworking hadvance
    have hsettled : ¬ db'.Interrupted id := by
      refine advance_settles hinv.dbInv hheld ?_ hadvance
      rintro ⟨e, rfl⟩
      simpa only [retriesFit, hx, hn] using hfit
    refine ⟨?_, ?_⟩
    · rintro _ ⟨⟩ k hk
      have hne : k ≠ id := by
        rintro rfl
        exact hsettled hk
      rw [Database.Interrupted, Database.statusOf, (hspec.frame k hne).1] at hk
      have hmem : k ∈ id :: (x.finish n escaped).items :=
        (items_finish hn).mem_iff.mp (h.items x hx k hk)
      exact (List.mem_cons.mp hmem).resolve_left hne
    · refine dispatched_of_frame [id] h.dispatched ?_ ?_
      · exact fun k hk => hspec.frame k fun he => hk (List.mem_singleton.mpr he)
      · intro k hk
        rw [List.mem_singleton.mp hk]
        exact hspec.present id hheld.interrupted.isSome
  | @closed x hx =>
    refine ⟨?_, h.dispatched⟩
    rintro _ ⟨⟩
    exact h.items x hx
  | stopped => exact ⟨fun _ hx => absurd hx (by simp), h.dispatched⟩
  | @started workers capacity now hx hbounds hok =>
    have hends : SweepEnds now s.db _ _ _ := (recoverStartup_always hinv.dbInv).2
    refine ⟨?_, hends.dispatched h⟩
    rintro _ ⟨⟩ k hk
    exact absurd hk (hends.not_interrupted hok k)
  | startupRaised =>
    exact ⟨fun _ hx => absurd hx (by simp), (recoverStartup_always hinv.dbInv).2.dispatched h⟩
  | @startupStopped n now db' hx hdb =>
    refine ⟨fun _ hx => absurd hx (by simp), ?_⟩
    obtain rfl | hdb := List.mem_cons.mp hdb
    · exact h.dispatched
    · exact ((recoverStartup_always hinv.dbInv).1 db' hdb).dispatched h

end Step

theorem tracked_initial : Tracked System.initial := by
  refine ⟨fun _ hx => absurd hx (by simp [System.initial]), fun k o ho => ?_⟩
  simp [System.initial, Database.empty, Database.getOperation] at ho

theorem tracked_of_run {labels : List (Event × Outcome)} {s : System}
    (h : Run RetryingStep System.initial labels s) : SysInv s ∧ Tracked s := by
  refine h.invariant (I := fun s => SysInv s ∧ Tracked s) ⟨sysInv_initial, tracked_initial⟩ ?_
  rintro t l u ⟨hinv, htracked⟩ ⟨hstep, hfit⟩
  have hcase := step_cases hinv hstep
  exact ⟨hcase.sysInv hinv, hcase.tracked hinv htracked hfit⟩

/-! ## Due retries -/

section Due

variable {now : Timestamp} {db : Database} {id : OperationId} {o : Operation}

/-- An accepted operation whose dispatch waits for its next attempt is a row of the query. -/
theorem mem_dueRows {next : Timestamp} (ho : db.getOperation id = some o)
    (hf : o.finishing = true) (hrunning : o.status = .running)
    (hnext : o.refs.retry.nextAt = some next)
    (hstatus : db.statusOf id = some .recoveryRequired) (hnow : next ≤ now) :
    (id, next) ∈ dueRows now db := by
  obtain ⟨d, hd, hd'⟩ := DbInv.exists_dispatch hstatus
  refine List.mem_filterMap.mpr ⟨⟨id, o⟩, Table.lookup_eq_some_iff.mp ho, ?_⟩
  simp [hd, hnext, hf, hrunning, hd', hnow]

/-- The query returns a row, unless 32 rows that are no later fill its page. -/
theorem mem_duePage {row : OperationId × Timestamp} (h : row ∈ dueRows now db) :
    row ∈ duePage now db ∨
      ((duePage now db).length = 32 ∧ ∀ other ∈ duePage now db, other.2 ≤ row.2) :=
  mem_take_insertionSort_or (fun a b : OperationId × Timestamp => a.2 ≤ b.2) h

end Due

/-- What an accepted operation of an idle executor looks like: its dispatch waits for recovery and
`due` returns it once its time has come (unless 32 others that are no later fill the page), or all
its attempts are used. -/
def Waits (db : Database) (id : OperationId) (o : Operation) : Prop :=
  (o.status = .running ∧ db.statusOf id = some .recoveryRequired ∧
    ∃ next, o.refs.retry.nextAt = some next ∧ ∀ now, next ≤ now →
      id ∈ due now db ∨
        ((due now db).length = 32 ∧ ∀ other ∈ duePage now db, other.2 ≤ next)) ∨
  (o.status = .recoveryRequired ∧ o.refs.retry.attempts = retryDelays.length)

/-- An accepted operation of an idle executor waits for its next attempt, or for its owner. -/
theorem waits_of_idle {s : System} {x : Executor} {id : OperationId} {o : Operation}
    (hinv : SysInv s) (htracked : Tracked s) (hx : s.executor = some x) (hidle : x.items = [])
    (ho : s.db.getOperation id = some o) (hf : o.finishing = true) (hn : o.nonterminal = true) :
    Waits s.db id o := by
  obtain ⟨d, hd⟩ := Option.isSome_iff_exists.mp (htracked.dispatched id o ho hf)
  have hactive := (hinv.dbInv.inv.agree id d o hd ho).2.2.2 hn hf
  have hnot : ¬ d.status.interrupted = true := by
    intro hint
    have hmem := htracked.items x hx id ((interrupted_iff hd).mpr hint)
    rw [hidle] at hmem
    cases hmem
  have hstatus : s.db.statusOf id = some .recoveryRequired := by
    rw [Database.statusOf, hd]
    cases hs : d.status with
    | pending => rw [hs] at hnot; exact absurd rfl hnot
    | running => rw [hs] at hnot; exact absurd rfl hnot
    | finished => rw [hs] at hactive; exact absurd hactive (by simp [DispatchStatus.active])
    | recoveryRequired => exact congrArg some hs
  obtain ⟨hfg, -⟩ | ⟨-, ⟨hrunning, hnext⟩ | hused⟩ := hinv.dbInv.rests id o hstatus ho
  · rw [hf] at hfg
    cases hfg
  · obtain ⟨next, hnext⟩ := Option.isSome_iff_exists.mp hnext
    refine .inl ⟨hrunning, hstatus, next, hnext, fun now hnow => ?_⟩
    obtain hpage | ⟨hfull, hearlier⟩ :=
      mem_duePage (mem_dueRows ho hf hrunning hnext hstatus hnow)
    · exact .inl (List.mem_map.mpr ⟨_, hpage, rfl⟩)
    · refine .inr ⟨?_, hearlier⟩
      rw [due, List.length_map]
      exact hfull
  · exact .inr hused

/-- **Retries are bounded and nothing is stranded.**  In a run whose retry records fit, an
operation is requeued automatically at most five times, its recorded counter never decreases, and
an accepted operation of an idle executor waits for its next attempt or has used all of them.

The bound follows from the counter, which is exactly the number of automatic requeues of the run,
and from the record's own invariant, that another attempt is planned only after fewer than five.
That nothing is stranded needs the executor: whatever is pending or running in the database is one
of its items, so that an executor without items leaves only dispatches that wait for recovery. -/
theorem finishing_retries_of_run {labels : List (Event × Outcome)} {s : System}
    (h : Run RetryingStep System.initial labels s) :
    (∀ id, automaticRetries id labels ≤ retryDelays.length) ∧
      (∀ id l s', RetryingStep s l s' → s.db.retryCount id ≤ s'.db.retryCount id) ∧
      ∀ x, s.executor = some x → x.items = [] → ∀ id o, s.db.getOperation id = some o →
        o.finishing = true → o.nonterminal = true → Waits s.db id o := by
  obtain ⟨hinv, htracked⟩ := tracked_of_run h
  refine ⟨automaticRetries_le h, ?_, ?_⟩
  · rintro id ⟨event, outcome⟩ s' ⟨hstep, hfit⟩
    rw [(step_cases hinv hstep).retryCount hinv hfit]
    exact Nat.le_add_right _ _
  · intro x hx hidle id o ho hf hn
    exact waits_of_idle hinv htracked hx hidle ho hf hn

/-- A deployment is accepted and its finishing work fails; the first automatic retry checkpoints the
operation, with refs that are merged, and fails too. -/
def retriedDeployment : List Event :=
  takenUp "00000000-0000-4000-8000-000000000001" "app.deploy" "app-a" ++
    [.call (.beginOperation ⟨"00000000-0000-4000-8000-000000000001", "app.deploy", "app-a",
        "validated", "", .empty, none⟩),
      .call (.markOperationFinishing "00000000-0000-4000-8000-000000000001"),
      .workRaises 0, .advance 0 0, .advance 0 0, .advance 0 0,
      .resubmitRecovery "00000000-0000-4000-8000-000000000001" "app.deploy" "app-a" true 60,
      .take 0, .advance 0 60,
      .call (.checkpointOperation "00000000-0000-4000-8000-000000000001"
        ⟨"predecessor_cleanup", some (.ofList [("predecessor_job_absent", .bool true)]), true,
          none, none⟩),
      .workRaises 0, .advance 0 60, .advance 0 60, .advance 0 60]

/-- Its one automatic retry is recorded, and it waits for the next one. -/
theorem finishing_retries_of_retried_deployment :
    automaticRetries "00000000-0000-4000-8000-000000000001"
        (System.initial.labels retriedDeployment) = 1 ∧
      automaticRetries "00000000-0000-4000-8000-000000000001"
        (System.initial.labels retriedDeployment) ≤ retryDelays.length ∧
      ∃ o, (System.initial.play retriedDeployment).db.getOperation
          "00000000-0000-4000-8000-000000000001" = some o ∧ o.refs.retry.attempts = 1 ∧
        Waits (System.initial.play retriedDeployment).db "00000000-0000-4000-8000-000000000001" o := by
  have h := finishing_retries_of_run
    (run_play (show System.initial.playable retriesFit retriedDeployment = true by decide +kernel))
  have hidle : (System.initial.play retriedDeployment).executor.any (·.items.isEmpty) = true := by
    decide +kernel
  have hrow : ((System.initial.play retriedDeployment).db.getOperation
      "00000000-0000-4000-8000-000000000001").any (fun o =>
        o.finishing && o.nonterminal && o.refs.retry.attempts == 1) = true := by
    decide +kernel
  obtain ⟨x, hx, hitems⟩ := (Option.any_eq_true _ _).mp hidle
  obtain ⟨o, ho, hfields⟩ := (Option.any_eq_true _ _).mp hrow
  simp only [Bool.and_eq_true, beq_iff_eq] at hfields
  obtain ⟨⟨hf, hn⟩, hattempts⟩ := hfields
  exact ⟨by decide +kernel, h.1 _, o, ho, hattempts,
    h.2.2 x hx (List.isEmpty_iff.mp hitems) _ o ho hf hn⟩

/-! ## A stranded operation -/

/-- Refs of 16319 bytes. -/
def crowdedRefs : Refs :=
  .ofList [("evidence_list", .arr (List.replicate 50 (.arr (List.replicate 54 (.bool false)))))]

/-- A deployment with such refs is accepted and its finishing work fails. -/
def crowdedDeployment : List Event :=
  takenUp "00000000-0000-4000-8000-000000000001" "app.deploy" "app-a" ++
    [.call (.beginOperation ⟨"00000000-0000-4000-8000-000000000001", "app.deploy", "app-a",
        "validated", "", crowdedRefs, none⟩),
      .call (.markOperationFinishing "00000000-0000-4000-8000-000000000001"),
      .workRaises 0, .advance 0 0, .advance 0 0]

/-- **Crowded refs strand an accepted operation.**  The retry record does not fit, `schedule`
raises, and the executor is idle with the operation and its dispatch running and no next
attempt. -/
theorem crowded_refs_strand_operation :
    Run SystemStep System.initial (System.initial.labels crowdedDeployment)
        (System.initial.play crowdedDeployment) ∧
      (System.initial.play crowdedDeployment).executor.map Executor.items = some [] ∧
      (System.initial.play crowdedDeployment).db.statusOf
        "00000000-0000-4000-8000-000000000001" = some .running ∧
      ((System.initial.play crowdedDeployment).db.getOperation
          "00000000-0000-4000-8000-000000000001").map
        (fun o => (o.finishing, o.status, o.refs.retry)) =
          some (true, .running, ⟨0, none⟩) := by
  refine ⟨(@run_play (fun _ _ => true) _ _ (by decide +kernel)).of_restrict, ?_, ?_, ?_⟩
  · decide +kernel
  · decide +kernel
  · decide +kernel

end Controller
end OpenstackPlatform
