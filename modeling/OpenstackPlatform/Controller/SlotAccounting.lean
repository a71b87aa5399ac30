import OpenstackPlatform.Controller.SystemInvariant

/-!
# Slots and workers

`submit` and `resubmit_recovery` take a slot of the bounded semaphore for every item they accept,
and a worker gives it back at the end of its `finally` block.  The `except` and `finally` blocks
write the journal themselves, and an exception that such a write raises ends the worker's thread.

Two of these writes can raise.  The `except` block begins a placeholder for work that left no
operation; it handles an operation that is unfinished in the scope, and not one that is finishing
there and does not admit the item's kind.  The `finally` block schedules the next attempt of an
accepted operation, whose refs may have no room for the retry record.  `unhindered` says that
neither happens.

* `advance_clean`: an unhindered transaction of `_run` lets no exception through and brings its
  item nearer to the end of the `finally` block.
* `slots_accounted_of_run`: slots, workers and dispatches in every run of unhindered steps.
* `finishing_operation_ends_worker`: a worker that is lost to a finishing operation.
-/

namespace OpenstackPlatform
namespace Controller

open Library

/-! ## Which writes of a worker are admitted -/

/-- The exception a stage carries out of the `except` block. -/
def Stage.escaping : Stage → Option Error
  | .closing e | .settling e => e
  | _ => none

/-- How far a stage is from the end of the `finally` block. -/
def Stage.rank : Stage → Nat
  | .taken => 7
  | .working => 6
  | .returned => 5
  | .accepting => 4
  | .failing => 3
  | .rejecting => 2
  | .closing _ => 1
  | .settling _ => 0

/-- The finishing operation of an item's scope admits its kind. -/
def placeholderAdmitted (db : Database) (id : OperationId) : Bool :=
  match db.getOperation id, db.getDispatch id with
  | none, some d => (checkFinishingAdmission db d.scope d.kind).isOk
  | _, _ => true

/-- The retry record of an item's accepted operation fits into its refs. -/
def retryFits (now : Timestamp) (db : Database) (id : OperationId) : Bool :=
  match db.getOperation id with
  | some o => !(o.finishing && o.nonterminal) || (checkRefs (scheduledRefs now o.refs)).isOk
  | none => true

/-- What a worker writes at a stage is not refused. -/
def stageAdmitted (now : Timestamp) (db : Database) (id : OperationId) : Stage → Bool
  | .failing => placeholderAdmitted db id
  | .closing _ => retryFits now db id
  | _ => true

/-- The worker that takes this step is not refused what it writes. -/
def unhindered (s : System) : Event → Bool
  | .advance n now =>
    match s.executor with
    | some x =>
      match x.workers[n]? with
      | some (.busy id stage) => stageAdmitted now s.db id stage
      | _ => true
    | none => true
  | _ => true

/-- The steps in which no worker is refused what it writes. -/
def UnhinderedStep : System → Event × Outcome → System → Prop :=
  restrict SystemStep fun s l => unhindered s l.1 = true

/-! ## One transaction -/

section Advance

variable {now : Timestamp} {db db' : Database} {id : OperationId} {stage : Stage} {p : Progress}

theorem isOk_iff {α : Type} {x : Except Error α} : x.isOk = true ↔ ∃ a, x = .ok a := by
  cases x with
  | ok a => exact ⟨fun _ => ⟨a, rfl⟩, fun _ => rfl⟩
  | error e =>
    constructor
    · exact fun h => absurd h Bool.false_ne_true
    · rintro ⟨a, ha⟩
      cases ha

/-- What a worker does next: it goes on nearer to its end, or it leaves without an exception. -/
structure Clean (stage : Stage) (p : Progress) : Prop where
  escaping : ∀ stage', p = .stage stage' → stage'.escaping = none ∧ stage'.rank < stage.rank
  leaves : ∀ e, p = .leave e → e = none

theorem Clean.goes_on {stage' : Stage} (hescaping : stage'.escaping = none)
    (hrank : stage'.rank < stage.rank) : Clean stage (.stage stage') where
  escaping := by
    rintro _ ⟨⟩
    exact ⟨hescaping, hrank⟩
  leaves _ hp := absurd hp (by simp)

theorem clean_leave : Clean stage (.leave none) where
  escaping _ hp := absurd hp (by simp)
  leaves := by
    rintro _ ⟨⟩
    rfl

/-- A transaction that cannot fail leads to the next stage. -/
theorem attempt_clean {x : Except Error Database} {ok : Progress} {failed : Error → Progress}
    (h : attempt db x ok failed = (db', p)) (hexists : ∃ db₁, x = .ok db₁)
    (hclean : Clean stage ok) : Clean stage p := by
  obtain ⟨-, rfl⟩ | ⟨e, herror, -⟩ := attempt_cases h
  · exact hclean
  · obtain ⟨db₁, hok⟩ := hexists
    rw [hok] at herror
    cases herror

/-- A transaction whose failure is handled leads to a next stage. -/
theorem attempt_clean_of_handled {x : Except Error Database} {ok : Progress}
    {failed : Error → Progress} (h : attempt db x ok failed = (db', p))
    (hclean : Clean stage ok) (hfailed : ∀ e, x = .error e → Clean stage (failed e)) :
    Clean stage p := by
  obtain ⟨-, rfl⟩ | ⟨e, herror, -, rfl⟩ := attempt_cases h
  · exact hclean
  · exact hfailed e herror

/-- The `except` block records the failure of a running operation. -/
theorem exists_recordFailure {o : Operation} (hid : Validation.isUuid id = true)
    (ho : db.getOperation id = some o) (hn : o.nonterminal = true) :
    ∃ db₁, (if o.finishing then recordFinishingFailure id db
      else markRecoveryRequired id none db) = .ok db₁ := by
  split
  · rename_i hf
    rw [recordFinishingFailure, ho]
    simp only [hf, if_true]
    exact exists_finishOperation hid (by simp) ho hn
  · exact exists_finishOperation hid (by simp) ho hn

/-- **One unhindered transaction** of a worker lets no exception through. -/
theorem advance_clean (h : DbInv db) (hheld : Held db id stage) (hworking : stage ≠ .working)
    (hescaping : stage.escaping = none) (hadmitted : stageAdmitted now db id stage = true)
    (hadvance : advance now db id stage = (db', p)) : Clean stage p := by
  have hi := hheld.interrupted
  obtain ⟨status, hstatus, -⟩ := hheld.interrupted
  obtain ⟨d, hd, -⟩ := DbInv.exists_dispatch hstatus
  have hid := (h.inv.valid id d hd).1
  cases stage with
  | taken =>
    exact attempt_clean_of_handled hadvance (.goes_on rfl (by decide))
      fun _ _ => .goes_on rfl (by decide)
  | working => exact absurd rfl hworking
  | returned =>
    rw [advance, hd] at hadvance
    split at hadvance
    · obtain ⟨-, rfl⟩ := Prod.mk.inj hadvance
      exact .goes_on rfl (by decide)
    · exact attempt_clean_of_handled hadvance (.goes_on rfl (by decide))
        fun _ _ => .goes_on rfl (by decide)
    · obtain ⟨-, rfl⟩ := Prod.mk.inj hadvance
      exact .goes_on rfl (by decide)
  | accepting =>
    exact attempt_clean_of_handled hadvance (.goes_on rfl (by decide))
      fun _ _ => .goes_on rfl (by decide)
  | failing =>
    cases ho : db.getOperation id with
    | none =>
      simp only [advance, ho, hd] at hadvance
      refine attempt_clean_of_handled hadvance (.goes_on rfl (by decide)) ?_
      intro e herror
      -- admission is granted, so only an unfinished operation can be in the way
      simp only [stageAdmitted, placeholderAdmitted, ho, hd, isOk_iff] at hadmitted
      obtain ⟨⟨⟩, hadmission⟩ := hadmitted
      have hphase : Validation.isOperationToken "rejected" = true := by decide +kernel
      rw [beginOperation_placeholder "rejected" h.inv hphase hd ho] at herror
      obtain hrefused | ⟨-, herror⟩ := check_bind_eq_error.mp herror
      · rw [hadmission] at hrefused
        cases hrefused
      split at herror
      · cases herror
        exact .goes_on rfl (by decide)
      · rename_i hnone
        obtain ⟨db₁, hput⟩ := exists_put_row (r := placeholder id d "rejected") hnone
        rw [show db.putOperation id (placeholder id d "rejected").row = .ok db₁ from hput]
          at herror
        cases herror
    | some o =>
      simp only [advance, ho, hd] at hadvance
      split at hadvance
      · rename_i hrunning
        have hn : o.nonterminal = true := by
          rw [Operation.nonterminal, beq_iff_eq.mp hrunning]
          rfl
        exact attempt_clean hadvance (exists_recordFailure hid ho hn) (.goes_on rfl (by decide))
      · obtain ⟨-, rfl⟩ := Prod.mk.inj hadvance
        exact .goes_on rfl (by decide)
  | rejecting =>
    obtain ⟨o, ho, hn⟩ := hheld.begun (.inr rfl)
    exact attempt_clean hadvance (exists_markFailed hid ho hn) (.goes_on rfl (by decide))
  | closing escaping =>
    obtain rfl : escaping = none := hescaping
    cases ho : db.getOperation id with
    | none =>
      simp only [advance, ho] at hadvance
      exact attempt_clean hadvance (exists_settle h hi (closingStatus_cases _)) clean_leave
    | some o =>
      simp only [advance, ho] at hadvance
      split at hadvance
      · rename_i hpending
        obtain ⟨hf, hn⟩ := Bool.and_eq_true_iff.mp hpending
        simp only [stageAdmitted, retryFits, ho, hpending, Bool.not_true, Bool.false_or,
          isOk_iff] at hadmitted
        obtain ⟨⟨⟩, hfits⟩ := hadmitted
        refine attempt_clean hadvance ?_ (.goes_on rfl (by decide))
        rw [schedule_of_pending ho hf hn, hfits]
        exact (amends_scheduledRow hn now).exists_put ho
      · exact attempt_clean hadvance (exists_settle h hi (closingStatus_cases _)) clean_leave
  | settling escaping =>
    obtain rfl : escaping = none := hescaping
    exact attempt_clean hadvance (exists_settle h hi (.inr rfl)) clean_leave

end Advance

/-! ## Runs -/

/-- No worker has ended, and none is about to. -/
structure Alive (s : System) : Prop where
  workers : ∀ x, s.executor = some x → .dead ∉ x.workers
  stages : ∀ x, s.executor = some x → ∀ id stage, .busy id stage ∈ x.workers →
    stage.escaping = none

/-- What one step does to the slots, the workers and the dispatches of the items. -/
structure Accounted (s : System) (l : Event × Outcome) (s' : System) : Prop where
  released : l.2 ≠ .overReleased
  survives : ∀ e, l.2 ≠ .escaped e
  slots : ∀ x, s'.executor = some x → x.slots.free + x.items.length = x.slots.capacity
  drained : ∀ x, s'.executor = some x → x.items = [] → x.slots.free = x.slots.capacity
  alive : ∀ x, s'.executor = some x → .dead ∉ x.workers
  workers : ∀ x x', s.executor = some x → s'.executor = some x' →
    x'.workers.length = x.workers.length
  settled : ∀ x x' id, s.executor = some x → s'.executor = some x' → id ∈ x.items →
    id ∉ x'.items →
    s'.db.statusOf id = some .finished ∨ s'.db.statusOf id = some .recoveryRequired
  progress : ∀ x x' n now id stage, l.1 = .advance n now → s.executor = some x →
    s'.executor = some x' → x.workers[n]? = some (.busy id stage) →
    id ∉ x'.items ∨ ∃ stage', x'.workers[n]? = some (.busy id stage') ∧ stage'.rank < stage.rank

section Step

variable {s s' : System} {event : Event} {o : Outcome}

/-- What is admitted of the worker that takes the step. -/
theorem stageAdmitted_of_unhindered {x : Executor} {n : Nat} {now : Timestamp}
    {id : OperationId} {stage : Stage} (h : unhindered s (.advance n now) = true)
    (hx : s.executor = some x) (hn : x.workers[n]? = some (.busy id stage)) :
    stageAdmitted now s.db id stage = true := by
  simpa only [unhindered, hx, hn] using h

/-- What an unhindered worker does next. -/
theorem clean_of_unhindered {x : Executor} {n : Nat} {now : Timestamp} {id : OperationId}
    {stage : Stage} {db' : Database} {p : Progress} (hinv : SysInv s) (halive : Alive s)
    (h : unhindered s (.advance n now) = true) (hx : s.executor = some x)
    (hn : x.workers[n]? = some (.busy id stage)) (hworking : stage ≠ .working)
    (hadvance : advance now s.db id stage = (db', p)) : Clean stage p :=
  advance_clean hinv.dbInv ((hinv.holds x hx).held id stage (List.mem_of_getElem? hn)) hworking
    (halive.stages x hx id stage (List.mem_of_getElem? hn))
    (stageAdmitted_of_unhindered h hx hn) hadvance

/-- The workers after one of them was replaced by a living one. -/
theorem Alive.set {x x' : Executor} {db' : Database} {n : Nat} {w : Worker} (halive : Alive s)
    (hx : s.executor = some x) (hworkers : x'.workers = x.workers.set n w) (hw : w ≠ .dead)
    (hstage : ∀ id stage, w = .busy id stage → stage.escaping = none) :
    Alive ⟨db', some x'⟩ where
  workers := by
    rintro _ ⟨⟩ hmem
    rw [hworkers] at hmem
    obtain heq | hmem := mem_set hmem
    · exact hw heq.symm
    · exact halive.workers x hx hmem
  stages := by
    rintro _ ⟨⟩ id stage hmem
    rw [hworkers] at hmem
    obtain heq | hmem := mem_set hmem
    · exact hstage id stage heq.symm
    · exact halive.stages x hx id stage hmem

/-- An unhindered step ends no worker. -/
theorem StepCase.alive (hinv : SysInv s) (halive : Alive s) (h : unhindered s event = true)
    (hcase : StepCase s event o s') : Alive s' := by
  cases hcase with
  | raised => exact halive
  | replayed => exact halive
  | called => exact ⟨halive.workers, halive.stages⟩
  | @enqueued x _ _ _ _ _ hx =>
    refine ⟨?_, ?_⟩
    · rintro _ ⟨⟩
      exact halive.workers x hx
    · rintro _ ⟨⟩
      exact halive.stages x hx
  | @requeued x _ _ _ _ _ _ hx =>
    refine ⟨?_, ?_⟩
    · rintro _ ⟨⟩
      exact halive.workers x hx
    · rintro _ ⟨⟩
      exact halive.stages x hx
  | took hx => exact halive.set hx rfl (by simp) (by rintro _ _ ⟨⟩; rfl)
  | @ended x n id event stage hx hn hevent =>
    refine halive.set hx rfl (by simp) ?_
    rintro _ _ ⟨⟩
    obtain ⟨-, rfl⟩ | ⟨-, rfl⟩ := hevent <;> rfl
  | advanced hx hn hworking hadvance =>
    have hclean := clean_of_unhindered hinv halive h hx hn hworking hadvance
    refine halive.set hx rfl (by simp) ?_
    rintro _ _ ⟨⟩
    exact (hclean.escaping _ rfl).1
  | left hx hn hworking hadvance =>
    obtain rfl := (clean_of_unhindered hinv halive h hx hn hworking hadvance).leaves _ rfl
    exact halive.set hx rfl (by simp) (by simp)
  | @closed x hx =>
    refine ⟨?_, ?_⟩
    · rintro _ ⟨⟩
      exact halive.workers x hx
    · rintro _ ⟨⟩
      exact halive.stages x hx
  | stopped => exact ⟨fun _ hx => absurd hx (by simp), fun _ hx => absurd hx (by simp)⟩
  | started =>
    refine ⟨?_, ?_⟩
    · rintro _ ⟨⟩ hmem
      cases List.eq_of_mem_replicate hmem
    · rintro _ ⟨⟩ id stage hmem
      cases List.eq_of_mem_replicate hmem
  | startupRaised => exact ⟨fun _ hx => absurd hx (by simp), fun _ hx => absurd hx (by simp)⟩
  | startupStopped => exact ⟨fun _ hx => absurd hx (by simp), fun _ hx => absurd hx (by simp)⟩

/-- No outcome of an unhindered step is an exception that ends a worker. -/
theorem StepCase.outcome (hinv : SysInv s) (halive : Alive s) (h : unhindered s event = true)
    (hcase : StepCase s event o s') : o ≠ .overReleased ∧ ∀ e, o ≠ .escaped e := by
  cases hcase with
  | left hx hn hworking hadvance =>
    obtain rfl := (clean_of_unhindered hinv halive h hx hn hworking hadvance).leaves _ rfl
    exact ⟨by simp [Outcome.ofEscaped], by simp [Outcome.ofEscaped]⟩
  | _ => exact ⟨by simp, by simp⟩

/-- The number of workers stays as it was while the process runs. -/
theorem StepCase.workers_length (hcase : StepCase s event o s') {x x' : Executor}
    (hx : s.executor = some x) (hx' : s'.executor = some x') :
    x'.workers.length = x.workers.length := by
  cases hcase with
  | raised => rw [Option.some.inj (hx.symm.trans hx')]
  | replayed => rw [Option.some.inj (hx.symm.trans hx')]
  | called => rw [Option.some.inj (hx.symm.trans hx')]
  | enqueued hx₁ =>
    cases hx.symm.trans hx₁
    cases hx'
    rfl
  | requeued hx₁ =>
    cases hx.symm.trans hx₁
    cases hx'
    rfl
  | took hx₁ =>
    cases hx.symm.trans hx₁
    cases hx'
    exact List.length_set
  | ended hx₁ =>
    cases hx.symm.trans hx₁
    cases hx'
    exact List.length_set
  | advanced hx₁ =>
    cases hx.symm.trans hx₁
    cases hx'
    exact List.length_set
  | left hx₁ =>
    cases hx.symm.trans hx₁
    cases hx'
    exact List.length_set
  | closed hx₁ =>
    cases hx.symm.trans hx₁
    cases hx'
    rfl
  | stopped => cases hx'
  | started hx₁ => rw [hx₁] at hx; cases hx
  | startupRaised => cases hx'
  | startupStopped => cases hx'

/-- An item is let go only by the worker that held it, with its dispatch settled. -/
theorem StepCase.settled (hinv : SysInv s) (halive : Alive s) (h : unhindered s event = true)
    (hcase : StepCase s event o s') {x x' : Executor} {id : OperationId}
    (hx : s.executor = some x) (hx' : s'.executor = some x') (hid : id ∈ x.items)
    (hgone : id ∉ x'.items) :
    s'.db.statusOf id = some .finished ∨ s'.db.statusOf id = some .recoveryRequired := by
  cases hcase with
  | raised => exact absurd (Option.some.inj (hx.symm.trans hx') ▸ hid) hgone
  | replayed => exact absurd (Option.some.inj (hx.symm.trans hx') ▸ hid) hgone
  | called => exact absurd (Option.some.inj (hx.symm.trans hx') ▸ hid) hgone
  | enqueued hx₁ =>
    cases hx.symm.trans hx₁
    cases hx'
    exact absurd (mem_items_accept.mpr (.inl hid)) hgone
  | requeued hx₁ =>
    cases hx.symm.trans hx₁
    cases hx'
    exact absurd (mem_items_accept.mpr (.inl hid)) hgone
  | took hx₁ hn hq =>
    cases hx.symm.trans hx₁
    cases hx'
    exact absurd ((items_take hn hq).mem_iff.mpr hid) hgone
  | ended hx₁ hn =>
    cases hx.symm.trans hx₁
    cases hx'
    exact absurd ((Holds.items_move hn).mem_iff.mpr hid) hgone
  | advanced hx₁ hn =>
    cases hx.symm.trans hx₁
    cases hx'
    exact absurd ((Holds.items_move hn).mem_iff.mpr hid) hgone
  | left hx₁ hn hworking hadvance =>
    cases hx.symm.trans hx₁
    cases hx'
    have hclean := clean_of_unhindered hinv halive h hx hn hworking hadvance
    obtain rfl := hclean.leaves _ rfl
    have hheld := (hinv.holds x hx).held _ _ (List.mem_of_getElem? hn)
    have hsettled := (advance_spec hinv.dbInv hheld hworking hadvance).settled rfl
    obtain rfl | hrest := List.mem_cons.mp ((items_finish hn).mem_iff.mp hid)
    · exact hsettled
    · exact absurd hrest hgone
  | closed hx₁ =>
    cases hx.symm.trans hx₁
    cases hx'
    exact absurd hid hgone
  | stopped => cases hx'
  | started hx₁ => rw [hx₁] at hx; cases hx
  | startupRaised => cases hx'
  | startupStopped => cases hx'

/-- A worker's own step brings its item nearer to its end. -/
theorem StepCase.progress (hinv : SysInv s) (halive : Alive s) {n : Nat} {now : Timestamp}
    (h : unhindered s (.advance n now) = true) (hcase : StepCase s (.advance n now) o s')
    {x x' : Executor} {id : OperationId} {stage : Stage} (hx : s.executor = some x)
    (hx' : s'.executor = some x') (hn : x.workers[n]? = some (.busy id stage)) :
    id ∉ x'.items ∨
      ∃ stage', x'.workers[n]? = some (.busy id stage') ∧ stage'.rank < stage.rank := by
  cases hcase with
  | raised hevent => cases hevent
  | ended _ _ hevent => simp at hevent
  | advanced hx₁ hn₁ hworking hadvance =>
    cases hx.symm.trans hx₁
    obtain ⟨rfl, rfl⟩ := Worker.busy.inj (Option.some.inj (hn.symm.trans hn₁))
    cases hx'
    have hclean := clean_of_unhindered hinv halive h hx hn hworking hadvance
    refine .inr ⟨_, ?_, (hclean.escaping _ rfl).2⟩
    obtain ⟨hlt, -⟩ := List.getElem?_eq_some_iff.mp hn
    rw [List.getElem?_set_self hlt]
  | left hx₁ hn₁ hworking hadvance =>
    cases hx.symm.trans hx₁
    obtain ⟨rfl, rfl⟩ := Worker.busy.inj (Option.some.inj (hn.symm.trans hn₁))
    cases hx'
    exact .inl (List.nodup_cons.mp
      ((items_finish hn).nodup_iff.mp (hinv.holds x hx).nodup)).1

end Step

theorem alive_initial : Alive System.initial :=
  ⟨fun _ hx => absurd hx (by simp [System.initial]),
    fun _ hx => absurd hx (by simp [System.initial])⟩

/-- No worker ends in a run of unhindered steps. -/
theorem alive_of_run {labels : List (Event × Outcome)} {s : System}
    (h : Run UnhinderedStep System.initial labels s) : SysInv s ∧ Alive s := by
  refine h.invariant (I := fun s => SysInv s ∧ Alive s) ⟨sysInv_initial, alive_initial⟩ ?_
  rintro t l u ⟨hinv, halive⟩ ⟨hstep, hok⟩
  have hcase := step_cases hinv hstep
  exact ⟨hcase.sysInv hinv, hcase.alive hinv halive hok⟩

/-- **Slots and workers.**  In a run whose workers are not refused what they write, every step
keeps the slots and the items together at the capacity, lets no exception end a worker, keeps the
number of workers, and lets an item go only with its dispatch finished or waiting for recovery. -/
theorem slots_accounted_of_run {labels : List (Event × Outcome)} {l : Event × Outcome}
    {s s' : System} (h : Run UnhinderedStep System.initial labels s)
    (hstep : UnhinderedStep s l s') : Accounted s l s' := by
  obtain ⟨hinv, halive⟩ := alive_of_run h
  obtain ⟨hstep, hok⟩ := hstep
  obtain ⟨event, o⟩ := l
  have hcase := step_cases hinv hstep
  have hinv' := hcase.sysInv hinv
  obtain ⟨hreleased, hsurvives⟩ := hcase.outcome hinv halive hok
  refine ⟨hreleased, hsurvives, fun x hx => (hinv'.holds x hx).slots, ?_,
    (hcase.alive hinv halive hok).workers, fun x x' hx hx' => hcase.workers_length hx hx',
    fun x x' id hx hx' => hcase.settled hinv halive hok hx hx', ?_⟩
  · intro x hx hitems
    have hslots := (hinv'.holds x hx).slots
    rw [hitems] at hslots
    exact hslots
  · rintro x x' n now id stage rfl hx hx' hn
    exact hcase.progress hinv halive hok hx hx' hn

/-- The process starts with one worker, which takes up a request. -/
def takenUp (id kind scope : String) : List Event :=
  [.startup 1 1 0,
    .call (.claimIdempotencyRequest id
      "0000000000000000000000000000000000000000000000000000000000000000"),
    .submit id kind scope 0,
    .take 0,
    .advance 0 0]

/-- Work that raises before it records an operation, up to the last step of its item. -/
def rejectedRequest : List Event :=
  takenUp "00000000-0000-4000-8000-000000000001" "app.delete" "app-a" ++
    [.workRaises 0, .advance 0 0, .advance 0 0]

/-- The last step of a rejected request meets the condition. -/
theorem slots_accounted_of_rejected_request :
    ∃ s', step (System.initial.play rejectedRequest) (.advance 0 0) = some (s', .done) ∧
      Accounted (System.initial.play rejectedRequest) (.advance 0 0, .done) s' := by
  obtain ⟨s', hstep⟩ := exists_step (s := System.initial.play rejectedRequest)
    (e := .advance 0 0) (o := .done) (by decide +kernel)
  exact ⟨s', hstep, slots_accounted_of_run (run_play (by decide +kernel))
    ⟨hstep, by decide +kernel⟩⟩

/-! ## A worker that is lost -/

/-- While a delete is inside its work, a direct deployment of the same scope is accepted; then the
work raises without an operation of its own. -/
def overtakenRequest : List Event :=
  takenUp "00000000-0000-4000-8000-000000000001" "app.delete" "app-a" ++
    [.call (.beginOperation ⟨"00000000-0000-4000-8000-000000000002", "app.deploy", "app-a",
        "validated", "", .empty, none⟩),
      .call (.markOperationFinishing "00000000-0000-4000-8000-000000000002"),
      .workRaises 0, .advance 0 0, .advance 0 0]

/-- **A finishing operation ends a worker.**  The `except` block cannot begin the placeholder of
the failed delete next to the accepted deployment; the exception leaves the loop and the only
worker is gone. -/
theorem finishing_operation_ends_worker :
    Run SystemStep System.initial (System.initial.labels overtakenRequest)
        (System.initial.play overtakenRequest) ∧
      (System.initial.labels overtakenRequest).any (fun l => l.2 ==
        .escaped (.finishingOperationConflict "00000000-0000-4000-8000-000000000002")) = true ∧
      (System.initial.play overtakenRequest).executor.map Executor.workers = some [.dead] := by
  refine ⟨(@run_play (fun _ _ => true) _ _ (by decide +kernel)).of_restrict, ?_, ?_⟩
  · decide +kernel
  · decide +kernel

end Controller
end OpenstackPlatform
