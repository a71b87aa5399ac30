import OpenstackPlatform.Controller.SlotAccounting

/-!
# What a restart leaves behind

A stop of the process leaves dispatches that are pending or running.  The startup pass settles
them, and a dispatch it leaves waiting for recovery should have an operation that waits for
recovery, so that its owner can requeue it and its scope is not refused for good.

The pass itself begins a placeholder for a dispatch without an operation, and two rows of the scope
can refuse it: an unfinished operation of a direct caller, next to which the dispatch is left
waiting for recovery with nothing to recover, and a finishing operation that does not admit its
kind, at which the pass ends with an exception.  `startable` says that neither is there, and that
the retry record of every interrupted finishing operation fits into its refs.

* `Database.Sound`: what every dispatch looks like once a worker or the pass has settled it.
* `Recovered`: what the pass should leave behind.
* `restart_recovers_of_run`: it does, in every run whose starts are startable.
* `direct_operation_wedges_scope`: a scope that is wedged by the operation of a direct caller.
-/

namespace OpenstackPlatform
namespace Controller

open Library

/-! ## Which states a start can settle -/

/-- The scope of a dispatch without an operation has none in the foreground either. -/
def placeholderFree (db : Database) (id : OperationId) : Bool :=
  match db.getOperation id, db.getDispatch id with
  | none, some d => (getUnfinishedOperation db d.scope).isNone
  | _, _ => true

/-- Nothing is in the way of the startup pass. -/
def startable (now : Timestamp) (db : Database) : Bool :=
  db.dispatches.entries.all fun e => !e.2.status.interrupted ||
    (placeholderFree db e.1 && placeholderAdmitted db e.1 && retryFits now db e.1)

section Startable

variable {now : Timestamp} {db : Database} {id : OperationId} {d : OperationDispatch}

theorem placeholderFree_iff (hd : db.getDispatch id = some d) :
    placeholderFree db id = true ↔ ¬ Blocked db id d := by
  rw [placeholderFree, Blocked, hd]
  cases ho : db.getOperation id with
  | none => simp
  | some o => simp

theorem placeholderAdmitted_iff (hd : db.getDispatch id = some d) :
    placeholderAdmitted db id = true ↔ ¬ Refused db id d := by
  rw [placeholderAdmitted, Refused, hd]
  cases ho : db.getOperation id with
  | none =>
    simp only [true_and, not_not, isOk_iff]
    constructor
    · rintro ⟨⟨⟩, h⟩
      exact h
    · exact fun h => ⟨(), h⟩
  | some o => simp

theorem retryFits_iff : retryFits now db id = true ↔ ¬ Overfull now db id := by
  rw [retryFits, Overfull]
  cases ho : db.getOperation id with
  | none => simp
  | some o =>
    simp only [Option.some.injEq, exists_eq_left', not_and, not_not, Bool.or_eq_true,
      Bool.not_eq_true', isOk_iff]
    constructor
    · rintro (hpending | ⟨⟨⟩, hfits⟩) hf hn
      · rw [hf, hn] at hpending
        cases hpending
      · exact hfits
    · intro h
      cases hpending : o.finishing && o.nonterminal with
      | false => exact .inl rfl
      | true =>
        obtain ⟨hf, hn⟩ := Bool.and_eq_true_iff.mp hpending
        exact .inr ⟨(), h hf hn⟩

theorem startable_iff : startable now db = true ↔ Startable now db := by
  rw [startable, List.all_eq_true]
  constructor
  · intro h id d hd hint
    have hentry := h ⟨id, d⟩ (Table.lookup_eq_some_iff.mp hd)
    simp only [hint, Bool.not_true, Bool.false_or, Bool.and_eq_true] at hentry
    obtain ⟨⟨hfree, hadmitted⟩, hfits⟩ := hentry
    exact ⟨(placeholderFree_iff hd).mp hfree, (placeholderAdmitted_iff hd).mp hadmitted,
      retryFits_iff.mp hfits⟩
  · rintro h ⟨id, d⟩ he
    have hd : db.getDispatch id = some d := Table.lookup_eq_some_iff.mpr he
    cases hint : d.status.interrupted with
    | false => rfl
    | true =>
      obtain ⟨hblocked, hrefused, hoverfull⟩ := h id d hd hint
      simp only [Bool.not_true, Bool.false_or, Bool.and_eq_true]
      exact ⟨⟨(placeholderFree_iff hd).mpr hblocked, (placeholderAdmitted_iff hd).mpr hrefused⟩,
        retryFits_iff.mpr hoverfull⟩

end Startable

/-- Work has ended its own foreground operation, or put it into recovery. -/
def endedWork (db : Database) (id : OperationId) : Bool :=
  match db.getOperation id with
  | some o => o.finishing || o.status != .running
  | none => true

/-- The process starts where nothing is in the way of the pass, and work returns once it has ended
its operation. -/
def orderly (s : System) : Event → Bool
  | .workReturns n =>
    match s.executor with
    | some x =>
      match x.workers[n]? with
      | some (.busy id _) => endedWork s.db id
      | _ => true
    | none => true
  | .startup _ _ now | .startupStopped _ now => startable now s.db
  | _ => true

/-- The steps of orderly runs. -/
def OrderlyStep : System → Event × Outcome → System → Prop :=
  restrict SystemStep fun s l => orderly s l.1 = true

/-! ## Settled dispatches -/

/-- A dispatch that waits for recovery has an operation, and a finished one has none that could
still run. -/
structure Database.Sound (db : Database) (id : OperationId) : Prop where
  recoverable : db.statusOf id = some .recoveryRequired → db.getOperation id ≠ none
  delivered : db.Delivered id

theorem Database.Sound.frame {db db' : Database} {id : OperationId} (h : db.Sound id)
    (hsame : Call.SameRows db db' id) : db'.Sound id := by
  constructor
  · rw [Database.statusOf, hsame.1, hsame.2]
    exact h.recoverable
  · rw [Database.Delivered, Database.statusOf, hsame.1, hsame.2]
    exact h.delivered

theorem Database.Interrupted.sound {db : Database} {id : OperationId} (h : db.Interrupted id) :
    db.Sound id := by
  obtain ⟨status, hstatus, hint⟩ := h
  refine ⟨fun hr => ?_, fun hfin => ?_⟩
  · cases hr.symm.trans hstatus
    cases hint
  · cases hfin.symm.trans hstatus
    cases hint

/-- What is known of an item once its work has returned. -/
def Returned (db : Database) (id : OperationId) (stage : Stage) : Prop :=
  (stage = .returned ∨ ∃ e, stage = .closing e) → endedWork db id = true

theorem Returned.frame {db db' : Database} {id : OperationId} {stage : Stage}
    (h : Returned db id stage) (hsame : Call.SameRows db db' id) : Returned db' id stage := by
  rw [Returned, endedWork, hsame.2]
  exact h

section Advance

variable {now : Timestamp} {db db' : Database} {id : OperationId} {stage stage' : Stage}

/-- A written operation that does not run has ended its work. -/
theorem endedWork_put {o : Operation} (hput : db.putOperation id o = .ok db')
    (h : o.finishing = true ∨ o.status ≠ .running) : endedWork db' id = true := by
  rw [endedWork, (Database.getOperation_put hput id).trans (if_pos rfl)]
  obtain h | h := h
  · simp [h]
  · simp [h]

/-- The stages before the end of an item say nothing of its operation. -/
theorem returned_of_ne (hreturned : stage ≠ .returned) (hclosing : ∀ e, stage ≠ .closing e) :
    Returned db id stage := by
  rintro (rfl | ⟨e, rfl⟩)
  · exact absurd rfl hreturned
  · exact absurd rfl (hclosing e)

/-- A worker closes an item only when its operation is not left running. -/
theorem advance_returned (h : DbInv db) (hheld : Held db id stage) (hret : Returned db id stage)
    (hadvance : advance now db id stage = (db', .stage stage')) : Returned db' id stage' := by
  obtain ⟨status, hstatus, -⟩ := hheld.interrupted
  obtain ⟨d, hd, -⟩ := DbInv.exists_dispatch hstatus
  have hid := (h.inv.valid id d hd).1
  cases stage with
  | taken =>
    obtain ⟨-, hp⟩ | ⟨e, -, -, hp⟩ := attempt_cases hadvance
    · obtain rfl := Progress.stage.inj hp
      exact returned_of_ne (by simp) (by simp)
    · obtain rfl := Progress.stage.inj hp
      exact returned_of_ne (by simp) (by simp)
  | working =>
    obtain ⟨rfl, hp⟩ := Prod.mk.inj hadvance
    obtain rfl := Progress.stage.inj hp
    exact returned_of_ne (by simp) (by simp)
  | returned =>
    rw [advance, hd] at hadvance
    split at hadvance
    · obtain ⟨rfl, hp⟩ := Prod.mk.inj hadvance
      exact fun _ => hret (.inl rfl)
    · obtain ⟨-, hp⟩ | ⟨e, -, -, hp⟩ := attempt_cases hadvance
      · obtain rfl := Progress.stage.inj hp
        exact returned_of_ne (by simp) (by simp)
      · obtain rfl := Progress.stage.inj hp
        exact returned_of_ne (by simp) (by simp)
    · obtain ⟨-, hp⟩ := Prod.mk.inj hadvance
      obtain rfl := Progress.stage.inj hp
      exact returned_of_ne (by simp) (by simp)
  | accepting =>
    obtain ⟨hok, hp⟩ | ⟨e, -, -, hp⟩ := attempt_cases hadvance
    · obtain ⟨o, -, -, hput⟩ := finishOperation_ok hok
      exact fun _ => endedWork_put hput (.inr (by simp))
    · obtain rfl := Progress.stage.inj hp
      exact returned_of_ne (by simp) (by simp)
  | failing =>
    cases ho : db.getOperation id with
    | none =>
      simp only [advance, ho, hd] at hadvance
      obtain ⟨-, hp⟩ | ⟨e, -, rfl, -⟩ := attempt_cases hadvance
      · obtain rfl := Progress.stage.inj hp
        exact returned_of_ne (by simp) (by simp)
      · intro _
        rw [endedWork, ho]
    | some o =>
      simp only [advance, ho, hd] at hadvance
      split at hadvance
      · rename_i hrunning
        have hn : o.nonterminal = true := by
          rw [Operation.nonterminal, beq_iff_eq.mp hrunning]
          rfl
        obtain ⟨hok, -⟩ | ⟨e, herror, -⟩ := attempt_cases hadvance
        · split at hok
          · obtain ⟨o', ho', -, hf, hput⟩ := recordFinishingFailure_ok hok
            exact fun _ => endedWork_put hput (.inl hf)
          · obtain ⟨o', -, -, hput⟩ := finishOperation_ok hok
            exact fun _ => endedWork_put hput (.inr (by simp))
        · obtain ⟨db₁, hok⟩ := exists_recordFailure hid ho hn
          rw [hok] at herror
          cases herror
      · rename_i hrunning
        obtain ⟨rfl, -⟩ := Prod.mk.inj hadvance
        intro _
        rw [endedWork, ho]
        simp only [bne, Bool.eq_false_iff.mpr hrunning, Bool.not_false, Bool.or_true]
  | rejecting =>
    obtain ⟨hok, -⟩ | ⟨e, herror, -⟩ := attempt_cases hadvance
    · obtain ⟨o, -, -, hput⟩ := finishOperation_ok (markFailed_ok hok)
      exact fun _ => endedWork_put hput (.inr (by simp))
    · obtain ⟨o, ho, hn⟩ := hheld.begun (.inr rfl)
      obtain ⟨db₁, hok⟩ := exists_markFailed hid ho hn
      rw [show markFailed id "not_required" db = .ok db₁ from hok] at herror
      cases herror
  | closing escaping =>
    rw [advance] at hadvance
    split at hadvance
    · split at hadvance
      · obtain ⟨-, hp⟩ | ⟨e, -, -, hp⟩ := attempt_cases hadvance
        · obtain rfl := Progress.stage.inj hp
          exact returned_of_ne (by simp) (by simp)
        · cases hp
      · obtain ⟨-, hp⟩ | ⟨e, -, -, hp⟩ := attempt_cases hadvance <;> cases hp
    · obtain ⟨-, hp⟩ | ⟨e, -, -, hp⟩ := attempt_cases hadvance <;> cases hp
  | settling escaping =>
    obtain ⟨-, hp⟩ | ⟨e, -, -, hp⟩ := attempt_cases hadvance <;> cases hp

/-- The dispatch that a worker lets go is sound. -/
theorem advance_sound {escaped : Option Error} (hheld : Held db id stage)
    (hret : Returned db id stage) (hadvance : advance now db id stage = (db', .leave escaped)) :
    db'.Sound id := by
  cases advance_leaves hadvance with
  | closed hpending hok =>
    obtain ⟨hnew, hop⟩ := Advanced.statusOf_set hok
    have hended := hret (.inr ⟨_, rfl⟩)
    refine ⟨fun hrecovery => ?_, fun hfin o ho => ?_⟩
    · have hstatus := Option.some.inj (hnew.symm.trans hrecovery)
      rw [hop]
      intro hnone
      rw [hnone] at hstatus
      exact absurd hstatus (by simp [closingStatus])
    · have hstatus := Option.some.inj (hnew.symm.trans hfin)
      have ho : db.getOperation id = some o := hop.symm.trans ho
      have hpending := hpending o ho
      rw [ho, closingStatus] at hstatus
      rw [endedWork, ho] at hended
      cases hf : o.finishing with
      | true => rwa [hf, Bool.true_and] at hpending
      | false =>
        rw [Operation.nonterminal]
        cases hs : o.status with
        | running => simp [hf, hs] at hended
        | recoveryRequired => simp [hs] at hstatus
        | succeeded => rfl
        | failed => rfl
  | @settled e db' hok =>
    obtain ⟨hnew, hop⟩ := Advanced.statusOf_set hok
    obtain ⟨o, ho, -⟩ := hheld.settling e rfl
    refine ⟨fun _ => by rw [hop, ho]; simp, fun hfin => ?_⟩
    cases Option.some.inj (hnew.symm.trans hfin)
  | unset => exact hheld.interrupted.sound
  | unscheduled => exact hheld.interrupted.sound

end Advance

/-! ## Runs -/

/-- What every state of an orderly run satisfies beside the invariant. -/
structure Restartable (s : System) : Prop where
  sound : ∀ k, s.db.Sound k
  returned : ∀ x, s.executor = some x → ∀ id stage, .busy id stage ∈ x.workers →
    Returned s.db id stage

section Step

variable {s s' : System} {event : Event} {o : Outcome}

/-- A write to one item leaves the others sound. -/
theorem sound_of_frame {db db' : Database} {id : OperationId} (h : ∀ k, db.Sound k)
    (hframe : ∀ k, k ≠ id → Call.SameRows db db' k) (hid : db'.Sound id) (k : OperationId) :
    db'.Sound k := by
  by_cases hk : k = id
  · rw [hk]
    exact hid
  · exact (h k).frame (hframe k hk)

/-- A sweep of the startup pass leaves every dispatch sound. -/
theorem Sweeping.sound {now : Timestamp} {db db' : Database} {ids : List OperationId}
    (h : Sweeping now db ids db') (hstart : startable now db = true) (hsound : ∀ k, db.Sound k)
    (k : OperationId) : db'.Sound k where
  recoverable :=
    h.recoverable (startable_iff.mp hstart) (fun k => (hsound k).recoverable) k
  delivered := h.delivered (fun k => (hsound k).delivered) k

/-- A call of the services or of a direct caller leaves every dispatch sound. -/
theorem Restartable.called {call : Call} {db' : Database} (hinv : SysInv s) (h : Restartable s)
    (hissued : s.callIssued call = true) (hok : call.run s.db = .ok db') :
    Restartable { s with db := db' } := by
  obtain ⟨-, -, hwrites, htarget⟩ := callIssued_cases hissued
  have hstatus : ∀ k, db'.statusOf k = s.db.statusOf k := Call.status_of_run call hwrites hok
  refine ⟨?_, ?_⟩
  · intro k
    by_cases hk : call.target = some k
    · obtain hnone | ⟨x, hx, hw⟩ := mayWrite_cases (htarget k hk)
      · have hnone : db'.statusOf k = none := by
          rw [hstatus, Database.statusOf, hnone]
          rfl
        refine ⟨fun hr => ?_, fun hfin => ?_⟩
        · rw [hnone] at hr
          cases hr
        · rw [hnone] at hfin
          cases hfin
      · refine Database.Interrupted.sound ?_
        rw [Database.Interrupted, hstatus]
        exact ((hinv.holds x hx).held k .working hw).interrupted
    · exact (h.sound k).frame (Call.frame call hok hk)
  · intro x hx k stage hw
    by_cases hk : call.target = some k
    · -- a held item is written only from inside its work
      obtain hnone | ⟨x', hx', hw'⟩ := mayWrite_cases (htarget k hk)
      · obtain ⟨status, hs, -⟩ := ((hinv.holds x hx).held k stage hw).interrupted
        rw [Database.statusOf, hnone] at hs
        cases hs
      · cases hx.symm.trans hx'
        obtain rfl := stage_unique (hinv.holds x hx).nodup_workers hw hw'
        exact returned_of_ne (by simp) (by simp)
    · exact (h.returned x hx k stage hw).frame (Call.frame call hok hk)

/-- An item was accepted. -/
theorem Restartable.accepted {x : Executor} {db' : Database} {id : OperationId} (hinv : SysInv s)
    (h : Restartable s) (hx : s.executor = some x) (hnew : ¬ s.db.Interrupted id)
    (hi : db'.Interrupted id) (hframe : ∀ k, k ≠ id → Call.SameRows s.db db' k) :
    Restartable ⟨db', some (x.accept id)⟩ := by
  refine ⟨sound_of_frame h.sound hframe hi.sound, ?_⟩
  rintro _ ⟨⟩ k stage hw
  have hne : k ≠ id := by
    rintro rfl
    exact hnew ((hinv.holds x hx).held k stage hw).interrupted
  exact (h.returned x hx k stage hw).frame (hframe k hne)

/-- A worker went on with its item. -/
theorem Restartable.moved {x : Executor} {db' : Database} {n : Nat} {id : OperationId}
    {stage stage' : Stage} (hinv : SysInv s) (h : Restartable s) (hx : s.executor = some x)
    (hn : x.workers[n]? = some (.busy id stage)) (hi : db'.Interrupted id)
    (hret : Returned db' id stage') (hframe : ∀ k, k ≠ id → Call.SameRows s.db db' k) :
    Restartable ⟨db', some { x with workers := x.workers.set n (.busy id stage') }⟩ := by
  refine ⟨sound_of_frame h.sound hframe hi.sound, ?_⟩
  rintro _ ⟨⟩ k stage₁ hw
  by_cases heq : Worker.busy k stage₁ = .busy id stage'
  · obtain ⟨rfl, rfl⟩ := Worker.busy.inj heq
    exact hret
  · obtain ⟨hw, hne⟩ := mem_set_ne (hinv.holds x hx).nodup_workers hn hw heq
    exact (h.returned x hx k stage₁ hw).frame (hframe k hne)

/-- Every orderly step keeps the dispatches sound. -/
theorem StepCase.restartable (hinv : SysInv s) (h : Restartable s) (hok : orderly s event = true)
    (hcase : StepCase s event o s') : Restartable s' := by
  have hnone : ∀ db', (∀ k, Database.Sound db' k) → Restartable ⟨db', none⟩ :=
    fun db' hsound => ⟨hsound, fun _ hx => absurd hx (by simp)⟩
  cases hcase with
  | raised => exact h
  | replayed => exact h
  | called hissued hrun => exact h.called hinv hissued hrun
  | @enqueued x id kind scope now db' hx hfree hrun =>
    obtain ⟨hnew, hpending, hframe⟩ := enqueued_rows hrun
    exact h.accepted hinv hx hnew ⟨_, hpending, rfl⟩ hframe
  | @requeued x id kind scope automatic now db' hx hfree hissued hrun =>
    obtain ⟨hnew, hpending, hframe⟩ := requeued_rows hrun
    exact h.accepted hinv hx hnew ⟨_, hpending, rfl⟩ hframe
  | @took x n id queue hx hn hq =>
    refine ⟨h.sound, ?_⟩
    rintro _ ⟨⟩ k stage hw
    obtain heq | hw := mem_set hw
    · obtain ⟨rfl, rfl⟩ := Worker.busy.inj heq
      exact returned_of_ne (by simp) (by simp)
    · exact h.returned x hx k stage hw
  | @ended x n id event stage hx hn hevent =>
    have hi := ((hinv.holds x hx).held id .working (List.mem_of_getElem? hn)).interrupted
    refine h.moved hinv hx hn hi ?_ fun _ _ => ⟨rfl, rfl⟩
    obtain ⟨rfl, rfl⟩ | ⟨rfl, rfl⟩ := hevent
    · intro _
      simpa only [orderly, hx, hn] using hok
    · exact returned_of_ne (by simp) (by simp)
  | @advanced x n now id stage stage' db' hx hn hworking hadvance =>
    have hw := List.mem_of_getElem? hn
    have hheld := (hinv.holds x hx).held id stage hw
    have hspec := advance_spec hinv.dbInv hheld hworking hadvance
    exact h.moved hinv hx hn (hspec.held stage' rfl).2.interrupted
      (advance_returned hinv.dbInv hheld (h.returned x hx id stage hw) hadvance) hspec.frame
  | @left x n now id stage db' escaped hx hn hworking hadvance =>
    have hw := List.mem_of_getElem? hn
    have hheld := (hinv.holds x hx).held id stage hw
    have hframe := (advance_spec hinv.dbInv hheld hworking hadvance).frame
    refine ⟨sound_of_frame h.sound hframe
      (advance_sound hheld (h.returned x hx id stage hw) hadvance), ?_⟩
    rintro _ ⟨⟩ k stage₁ hmem
    obtain ⟨hmem, hne⟩ := mem_set_ne (hinv.holds x hx).nodup_workers hn hmem
      (by split <;> simp)
    exact (h.returned x hx k stage₁ hmem).frame (hframe k hne)
  | @closed x hx =>
    refine ⟨h.sound, ?_⟩
    rintro _ ⟨⟩
    exact h.returned x hx
  | stopped => exact hnone _ h.sound
  | started =>
    refine ⟨(recoverStartup_always hinv.dbInv).2.sound hok h.sound, ?_⟩
    rintro _ ⟨⟩ id stage hmem
    cases List.eq_of_mem_replicate hmem
  | startupRaised => exact hnone _ ((recoverStartup_always hinv.dbInv).2.sound hok h.sound)
  | @startupStopped n now db' hx hdb =>
    refine hnone _ ?_
    obtain rfl | hdb := List.mem_cons.mp hdb
    · exact h.sound
    · exact ((recoverStartup_always hinv.dbInv).1 db' hdb).sound hok h.sound

end Step

theorem restartable_initial : Restartable System.initial := by
  refine ⟨fun k => ⟨fun h => ?_, fun h => ?_⟩, fun _ hx => absurd hx (by simp [System.initial])⟩
  · simp [System.initial, Database.statusOf, Database.getDispatch, Database.empty] at h
  · simp [System.initial, Database.statusOf, Database.getDispatch, Database.empty] at h

/-- Every state of an orderly run keeps its dispatches sound. -/
theorem restartable_of_run {labels : List (Event × Outcome)} {s : System}
    (h : Run OrderlyStep System.initial labels s) : SysInv s ∧ Restartable s := by
  refine h.invariant (I := fun s => SysInv s ∧ Restartable s)
    ⟨sysInv_initial, restartable_initial⟩ ?_
  rintro t l u ⟨hinv, hrestartable⟩ ⟨hstep, hok⟩
  have hcase := step_cases hinv hstep
  exact ⟨hcase.sysInv hinv, hcase.restartable hinv hrestartable hok⟩

/-! ## The restart -/

/-- The owner of a dispatch can requeue it. -/
def Requeues (db : Database) (id : OperationId) (d : OperationDispatch) : Prop :=
  ∀ now, ∃ db', requeueRecoveryDispatch id d.kind d.scope false now db = .ok db'

/-- What a restart should leave behind: no dispatch is pending or running, a foreground dispatch
that waits for recovery has an operation that does and can be requeued, and an operation in whose
favour the scope refuses a request can be requeued, or belongs to a direct caller. -/
structure Recovered (db : Database) : Prop where
  settled : ∀ id d, db.getDispatch id = some d → d.status ≠ .pending ∧ d.status ≠ .running
  operation : ∀ id d, db.getDispatch id = some d → d.status = .recoveryRequired →
    d.finishing = false → ∃ o, db.getOperation id = some o ∧ o.kind = d.kind ∧
      o.scope = d.scope ∧ o.status = .recoveryRequired
  requeues : ∀ id d, db.getDispatch id = some d → d.status = .recoveryRequired →
    d.finishing = false → Requeues db id d
  unwedged : ∀ id kind scope now k other, enqueueOperationDispatch id kind scope now db =
      .error (.unfinishedOperation scope k other) →
    db.getDispatch k = none ∨ ∃ d, db.getDispatch k = some d ∧ Requeues db k d

section Recovered

variable {db : Database} {id : OperationId} {d : OperationDispatch}

/-- The operation of a foreground dispatch that waits for recovery waits as well. -/
theorem exists_recovering (h : DbInv db) (hsound : db.Sound id) (hd : db.getDispatch id = some d)
    (hstatus : d.status = .recoveryRequired) (hf : d.finishing = false) :
    ∃ o, db.getOperation id = some o ∧ o.kind = d.kind ∧ o.scope = d.scope ∧
      o.status = .recoveryRequired ∧ o.finishing = false := by
  have hstatusOf : db.statusOf id = some .recoveryRequired := by
    rw [Database.statusOf, hd, ← hstatus]
    rfl
  obtain ⟨o, ho⟩ := Option.ne_none_iff_exists'.mp (hsound.recoverable hstatusOf)
  obtain ⟨hkind, hscope, hfinishing, -⟩ := h.inv.agree id d o hd ho
  have hfg : o.finishing = false := hfinishing.symm.trans hf
  refine ⟨o, ho, hkind.symm, hscope.symm, ?_, hfg⟩
  obtain ⟨-, hrests⟩ | ⟨hacc, -⟩ := h.rests id o hstatusOf ho
  · exact hrests
  · rw [hfg] at hacc
    cases hacc

/-- The owner of a foreground dispatch that waits for recovery can requeue it. -/
theorem requeues_of_recovering (h : DbInv db) (hsound : db.Sound id)
    (hd : db.getDispatch id = some d) (hstatus : d.status = .recoveryRequired)
    (hf : d.finishing = false) : Requeues db id d := by
  intro now
  obtain ⟨o, ho, hkind, hscope, hrecovery, hfg⟩ := exists_recovering h hsound hd hstatus hf
  obtain ⟨hid, hvalid, hvalid'⟩ := h.inv.valid id d hd
  have hactive : d.status.active = true := by
    rw [hstatus]
    rfl
  obtain ⟨db', hput⟩ :
      ∃ db', db.putDispatch id { d with status := .pending, updatedAt := now } = .ok db' :=
    exists_putDispatch_of_active hd hactive rfl rfl
  have heligible : requeueEligible d.kind d.scope d o = true := by
    refine requeueEligible_iff.mpr ⟨hstatus, ?_, .inl hrecovery, rfl, rfl, hkind, hscope⟩
    rw [Operation.nonterminal, hrecovery]
    rfl
  refine ⟨db', ?_⟩
  rw [requeueRecoveryDispatch]
  refine check_bind_eq_ok.mpr ⟨checkUuid_eq_ok.mpr hid, ?_⟩
  refine check_bind_eq_ok.mpr ⟨require_eq_ok.mpr hvalid, ?_⟩
  refine check_bind_eq_ok.mpr ⟨require_eq_ok.mpr hvalid', ?_⟩
  simp only [hd, ho]
  refine check_bind_eq_ok.mpr ⟨require_eq_ok.mpr heligible, ?_⟩
  rw [if_neg (by rw [hfg]; exact Bool.false_ne_true)]
  exact hput

/-- A settled and sound database is recovered. -/
theorem recovered_of_sound (h : DbInv db) (hsound : ∀ k, db.Sound k)
    (hsettled : ∀ k, ¬ db.Interrupted k) : Recovered db := by
  have hstatus : ∀ id d, db.getDispatch id = some d → d.status ≠ .pending ∧ d.status ≠ .running := by
    intro id d hd
    have hnot : ¬ d.status.interrupted = true := fun hint =>
      hsettled id ((interrupted_iff hd).mpr hint)
    refine ⟨fun hs => hnot ?_, fun hs => hnot ?_⟩
    · rw [hs]
      rfl
    · rw [hs]
      rfl
  have hwaits : ∀ id d, db.getDispatch id = some d → d.status ≠ .finished →
      d.status = .recoveryRequired := by
    intro id d hd hne
    obtain ⟨hpending, hrunning⟩ := hstatus id d hd
    cases hs : d.status with
    | pending => exact absurd hs hpending
    | running => exact absurd hs hrunning
    | finished => exact absurd hs hne
    | recoveryRequired => rfl
  refine ⟨hstatus, ?_, ?_, ?_⟩
  · intro id d hd hs hf
    obtain ⟨o, ho, hkind, hscope, hrecovery, -⟩ := exists_recovering h (hsound id) hd hs hf
    exact ⟨o, ho, hkind, hscope, hrecovery⟩
  · intro id d hd hs hf
    exact requeues_of_recovering h (hsound id) hd hs hf
  · intro id kind scope now k other herror
    obtain ⟨d, hactive⟩ | ⟨o, hunfinished⟩ := enqueueOperationDispatch_unfinished herror
    · obtain ⟨hd, hs⟩ := getActiveDispatch_eq_some hactive
      obtain ⟨hact, hf, -⟩ := OperationDispatch.activeScope_eq_some.mp hs
      have hne : d.status ≠ .finished := by
        intro hfin
        rw [hfin] at hact
        exact absurd hact (by simp [DispatchStatus.active])
      exact .inr ⟨d, hd, requeues_of_recovering h (hsound k) hd (hwaits k d hd hne) hf⟩
    · obtain ⟨ho, hs⟩ := getUnfinishedOperation_eq_some hunfinished
      obtain ⟨hn, hfg, -⟩ := Operation.unfinishedScope_eq_some.mp hs
      cases hd : db.getDispatch k with
      | none => exact .inl rfl
      | some d =>
        have hne : d.status ≠ .finished := by
          intro hfin
          have hstatusOf : db.statusOf k = some .finished := by
            rw [Database.statusOf, hd, ← hfin]
            rfl
          rw [(hsound k).delivered hstatusOf o ho] at hn
          cases hn
        have hf : d.finishing = false := (h.inv.agree k d o hd ho).2.2.1.trans hfg
        exact .inr ⟨d, rfl, requeues_of_recovering h (hsound k) hd (hwaits k d hd hne) hf⟩

end Recovered

/-- **A restart leaves no wedged scope.**  In a run in which the process starts where nothing is
in the way of the pass, a start succeeds and leaves the journal recovered.  The condition is about
every row that the pass meets: one that it cannot settle ends it, or keeps its scope refused. -/
theorem restart_recovers_of_run {labels : List (Event × Outcome)} {s s' : System}
    {workers capacity : Nat} {now : Timestamp} {o : Outcome}
    (h : Run OrderlyStep System.initial labels s)
    (hstep : OrderlyStep s (.startup workers capacity now, o) s') :
    o = .done ∧ Recovered s'.db := by
  obtain ⟨hinv, hrestartable⟩ := restartable_of_run h
  obtain ⟨hstep, hok⟩ := hstep
  have hstart : startable now s.db = true := hok
  have hends : SweepEnds now s.db _ _ _ := (recoverStartup_always hinv.dbInv).2
  have hreturns := hends.completes (startable_iff.mp hstart)
  have hcase := step_cases hinv hstep
  cases hcase with
  | raised hevent => cases hevent
  | ended _ _ hevent => simp at hevent
  | started hx hbounds =>
    refine ⟨rfl, recovered_of_sound hends.dbInv (hends.sound hstart hrestartable.sound) ?_⟩
    exact hends.not_interrupted hreturns
  | startupRaised hx herror =>
    rw [hreturns] at herror
    cases herror

/-- The process stops while a delete is inside its work, with its operation begun. -/
def stoppedRequest : List Event :=
  takenUp "00000000-0000-4000-8000-000000000001" "app.delete" "app-a" ++
    [.call (.beginOperation ⟨"00000000-0000-4000-8000-000000000001", "app.delete", "app-a",
        "validated", "", .empty, none⟩),
      .stop]

/-- The start after it meets the condition. -/
theorem restart_recovers_stopped_request :
    ∃ s', step (System.initial.play stoppedRequest) (.startup 1 1 1) = some (s', .done) ∧
      Recovered s'.db := by
  obtain ⟨s', hstep⟩ := exists_step (s := System.initial.play stoppedRequest)
    (e := .startup 1 1 1) (o := .done) (by decide +kernel)
  exact ⟨s', hstep, (restart_recovers_of_run (run_play (by decide +kernel))
    ⟨hstep, by decide +kernel⟩).2⟩

/-! ## A wedged scope -/

/-- The process stops while an environment change has begun no operation yet and a direct caller
collects the usage of the same scope; after the restart the collection ends, and a new request for
the scope arrives. -/
def blockedRestart : List Event :=
  takenUp "00000000-0000-4000-8000-000000000001" "app.env.set" "app-a" ++
    [.call (.beginOperation ⟨"00000000-0000-4000-8000-000000000002", "storage.usage.collect",
        "app-a", "collecting", "", .empty, none⟩),
      .stop,
      .startup 1 1 1,
      .call (.markSucceeded "00000000-0000-4000-8000-000000000002" "not_required"),
      .call (.claimIdempotencyRequest "00000000-0000-4000-8000-000000000003"
        "0000000000000000000000000000000000000000000000000000000000000000")]

/-- **A direct operation wedges a scope.**  The pass leaves the dispatch waiting for recovery with
no operation; it cannot be requeued, and it refuses every new request of its scope. -/
theorem direct_operation_wedges_scope :
    Run SystemStep System.initial (System.initial.labels blockedRestart)
        (System.initial.play blockedRestart) ∧
      (System.initial.play blockedRestart).db.statusOf "00000000-0000-4000-8000-000000000001" =
        some .recoveryRequired ∧
      ((System.initial.play blockedRestart).db.getOperation
        "00000000-0000-4000-8000-000000000001").isNone = true ∧
      raised (requeueRecoveryDispatch "00000000-0000-4000-8000-000000000001" "app.env.set" "app-a"
          false 2 (System.initial.play blockedRestart).db) =
        some (.database "operation is not eligible for recovery dispatch") ∧
      raised (enqueueOperationDispatch "00000000-0000-4000-8000-000000000003" "app.env.set" "app-a"
          2 (System.initial.play blockedRestart).db) =
        some (.unfinishedOperation "app-a" "00000000-0000-4000-8000-000000000001"
          "app.env.set") := by
  refine ⟨(@run_play (fun _ _ => true) _ _ (by decide +kernel)).of_restrict, ?_, ?_, ?_, ?_⟩
  · decide +kernel
  · decide +kernel
  · decide +kernel
  · decide +kernel

end Controller
end OpenstackPlatform
