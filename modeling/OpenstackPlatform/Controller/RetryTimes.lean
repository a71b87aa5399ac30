import OpenstackPlatform.Controller.JournalSpec
import OpenstackPlatform.Library.IsoTimes
import OpenstackPlatform.Library.Lines
import OpenstackPlatform.Library.Ranking

/-!
# The texts of retry times

`schedule` of `finishing_retries.py` writes the time of the next attempt with microseconds, `due`
and `requeue_recovery_dispatch` compare it as text with `utc_now`, which has seconds.  The journal's
model has whole seconds; here the stored texts stand beside it, and the comparisons are those of
the texts.

* `Stored`: the database, with the text of each operation's next attempt.
* `nextAtText`, `schedule`, `due`, `requeueRecoveryDispatch`: the code.
* `Agrees`: the texts stand for the whole seconds of the journal's model.
* `schedule_agrees`, `requeueRecoveryDispatch_agrees`, `dueRows_agrees`: on such texts the code does
  what the journal's model does.
* `retry_times`: when a scheduled operation is returned and accepted.
-/

namespace OpenstackPlatform
namespace Controller

open Library Library.Calendar Validation

namespace RetryTimes

/-! ## The code -/

/-- The database, and `$.finishing_retry.next_at` in the refs of each operation. -/
structure Stored where
  db : Database
  nextAt : OperationId → Option Text

/-- What `schedule` raises: an error of the journal, or `OverflowError` for a time after 9999. -/
inductive Failure where
  | journal (error : Error)
  | overflow

/-- `utc_now()` -/
def utcNow (clock : Moment) : Text := clock.isoSeconds

/-- The text of a sum of times. -/
def sumText : Option Moment → Except Failure (Option Text)
  | none => .error .overflow
  | some next => .ok (some next.isoMicroseconds)

/-- `next_at` of `schedule`: `None` when all attempts are used. -/
def nextAtText (now : Moment) (attempts : Nat) : Except Failure (Option Text) :=
  match retryDelays[attempts]? with
  | none => .ok none
  | some delay => sumText (now.add delay)

theorem sumText_eq_ok {sum : Option Moment} {text : Option Text} (h : sumText sum = .ok text) :
    ∃ next, sum = some next ∧ text = some next.isoMicroseconds := by
  cases sum with
  | none => cases h
  | some next => exact ⟨next, rfl, (Except.ok.inj h).symm⟩

namespace Stored

/-- `schedule` -/
def schedule (id : OperationId) (now : Moment) (s : Stored) : Except Failure (Stored × Bool) :=
  match s.db.getOperation id with
  | none => .ok (s, false)
  | some operation =>
    if operation.finishing && operation.nonterminal then do
      let nextAt ← nextAtText now operation.refs.retry.attempts
      let db ← (Controller.schedule id now.seconds s.db).mapError .journal
      pure (⟨db, Function.update s.nextAt id nextAt⟩, nextAt.isSome)
    else .ok (s, false)

/-- The rows of the query of `due`. -/
def dueRows (clock : Moment) (s : Stored) : List (OperationId × Text) :=
  s.db.operations.entries.filterMap fun e =>
    match s.db.getDispatch e.1, s.nextAt e.1 with
    | some d, some nextAt =>
      if e.2.finishing && e.2.status == .running && d.status == .recoveryRequired &&
          decide (nextAt ≤ utcNow clock) then some (e.1, nextAt)
      else none
    | _, _ => none

/-- The rows that `LIMIT 32` leaves, in the order of the texts. -/
def duePage (clock : Moment) (s : Stored) : List (OperationId × Text) :=
  ((s.dueRows clock).insertionSort fun a b => a.2 ≤ b.2).take 32

/-- `due` -/
def due (clock : Moment) (s : Stored) : List OperationId := (s.duePage clock).map Prod.fst

end Stored

/-- The retry record that `requeue_recovery_dispatch` writes, or its refusal. -/
def requeueRetryText (automatic : Bool) (clock : Moment) (nextAt : Option Text)
    (retry : FinishingRetry) : Except Error FinishingRetry :=
  if automatic then
    match nextAt with
    | none => .error (.database "finishing retry is not due")
    | some text =>
      if utcNow clock < text then .error (.database "finishing retry is not due")
      else .ok ⟨retry.attempts + 1, none⟩
  else .ok ⟨retry.attempts, none⟩

/-- `requeue_recovery_dispatch`, called without a time. -/
def Stored.requeueRecoveryDispatch (id kind scope : String) (automatic : Bool) (clock : Moment)
    (s : Stored) : Except Error Stored := do
  checkUuid "operation_id" id
  operationToken "kind" kind
  operationToken "scope" scope
  match s.db.getDispatch id, s.db.getOperation id with
  | some dispatch, some operation =>
    require (requeueEligible kind scope dispatch operation)
      (.database "operation is not eligible for recovery dispatch")
    let pending : OperationDispatch :=
      { dispatch with status := .pending, updatedAt := clock.seconds }
    if operation.finishing then
      let retry ← requeueRetryText automatic clock (s.nextAt id) operation.refs.retry
      checkRefs (operation.refs.withRetry retry)
      let db ← s.db.putOperation id { operation with refs := operation.refs.withRetry retry }
      let db ← db.putDispatch id pending
      pure ⟨db, Function.update s.nextAt id none⟩
    else
      let db ← s.db.putDispatch id pending
      pure ⟨db, s.nextAt⟩
  | _, _ => .error (.database "operation is not eligible for recovery dispatch")

/-! ## The texts and the whole seconds -/

/-- A text and a whole second for the time of the next attempt. -/
def Stands (text : Option Text) (second : Option Timestamp) : Prop :=
  (text = none ∧ second = none) ∨
    ∃ next : Moment, text = some next.isoMicroseconds ∧ second = some next.seconds

/-- The texts stand for the whole seconds of the journal's model. -/
def Agrees (s : Stored) : Prop :=
  ∀ id o, s.db.getOperation id = some o → Stands (s.nextAt id) o.refs.retry.nextAt

variable {clock : Moment} {retry : FinishingRetry}

theorem requeueRetryText_eq {automatic : Bool} {text : Option Text} (h : Stands text retry.nextAt) :
    requeueRetryText automatic clock text retry =
      requeueRetry automatic clock.seconds retry := by
  cases automatic with
  | false => rfl
  | true =>
    rcases h with ⟨rfl, hnone⟩ | ⟨next, rfl, hnext⟩
    · rw [requeueRetry, if_pos rfl, hnone]
      rfl
    · rw [requeueRetry, if_pos rfl, hnext]
      have hiff : utcNow clock < next.isoMicroseconds ↔ ¬ next.seconds ≤ clock.seconds := by
        rw [utcNow, ← not_le, Moment.isoMicroseconds_le_isoSeconds]
      by_cases hdue : next.seconds ≤ clock.seconds
      · simp [requeueRetryText, hdue, hiff]
      · simp [requeueRetryText, hdue, hiff]

variable {now : Moment}

/-- The row that `schedule` writes. -/
theorem nextAtText_stands {text : Option Text} (h : nextAtText now retry.attempts = .ok text) :
    Stands text (scheduledRetry now.seconds retry).nextAt := by
  rw [nextAtText] at h
  rw [scheduledRetry]
  split at h
  · rename_i hnone
    rw [hnone]
    exact .inl ⟨(Except.ok.inj h).symm, rfl⟩
  · rename_i delay hdelay
    obtain ⟨next, hnext, rfl⟩ := sumText_eq_ok h
    refine .inr ⟨next, rfl, ?_⟩
    rw [hdelay, Moment.seconds_of_add hnext, Option.map_some]

/-- A text that `schedule` writes is a time one of the delays later. -/
theorem nextAtText_some {attempts : Nat} {text : Text}
    (h : nextAtText now attempts = .ok (some text)) :
    ∃ delay, retryDelays[attempts]? = some delay ∧
      ∃ next, now.add delay = some next ∧ text = next.isoMicroseconds := by
  rw [nextAtText] at h
  split at h
  · cases h
  · rename_i delay hdelay
    obtain ⟨next, hnext, htext⟩ := sumText_eq_ok h
    exact ⟨delay, hdelay, next, hnext, Option.some.inj htext⟩

variable {id : OperationId} {s : Stored}

/-- What `schedule` does: nothing, or it writes the row and the text of an operation. -/
theorem schedule_cases {s' : Stored} {scheduled : Bool}
    (h : s.schedule id now = .ok (s', scheduled)) :
    (s' = s ∧ scheduled = false ∧ Controller.schedule id now.seconds s.db = .ok s.db) ∨
      ∃ o text, s.db.getOperation id = some o ∧ o.finishing = true ∧ o.nonterminal = true ∧
        nextAtText now o.refs.retry.attempts = .ok text ∧
        checkRefs (scheduledRefs now.seconds o.refs) = .ok () ∧
        s.db.putOperation id (scheduledRow now.seconds o) = .ok s'.db ∧
        s'.nextAt = Function.update s.nextAt id text ∧ scheduled = text.isSome := by
  rw [Stored.schedule] at h
  split at h
  · rename_i hnone
    cases h
    exact .inl ⟨rfl, rfl, by rw [Controller.schedule, hnone]; rfl⟩
  · rename_i o ho
    split at h
    · rename_i hpending
      obtain ⟨hf, hn⟩ := Bool.and_eq_true_iff.mp hpending
      cases htext : nextAtText now o.refs.retry.attempts with
      | error failure =>
        rw [htext] at h
        cases h
      | ok text =>
        cases hdb : Controller.schedule id now.seconds s.db with
        | error error =>
          rw [htext, hdb] at h
          cases h
        | ok db =>
          rw [htext, hdb] at h
          cases h
          rw [schedule_of_pending ho hf hn] at hdb
          obtain ⟨⟨⟩, hrefs, hput⟩ := bind_eq_ok.mp hdb
          exact .inr ⟨o, text, ho, hf, hn, htext, hrefs, hput, rfl, rfl⟩
    · rename_i hpending
      cases h
      exact .inl ⟨rfl, rfl, by rw [Controller.schedule, ho]; simp only [if_neg hpending]; rfl⟩

/-- `schedule` writes what the journal's model writes, and a text that stands for it. -/
theorem schedule_agrees {s' : Stored} {scheduled : Bool} (hs : Agrees s)
    (h : s.schedule id now = .ok (s', scheduled)) :
    Controller.schedule id now.seconds s.db = .ok s'.db ∧ Agrees s' := by
  rcases schedule_cases h with ⟨rfl, -, hsame⟩ | ⟨o, text, ho, hf, hn, htext, hrefs, hput, hnext, -⟩
  · exact ⟨hsame, hs⟩
  · refine ⟨?_, fun k row hrow => ?_⟩
    · rw [schedule_of_pending ho hf hn, hrefs]
      exact hput
    · rw [Database.getOperation_put hput] at hrow
      rw [hnext]
      by_cases hk : k = id
      · rw [if_pos hk] at hrow
        cases hrow
        rw [hk, Function.update_self]
        exact nextAtText_stands htext
      · rw [if_neg hk] at hrow
        rw [Function.update_of_ne hk]
        exact hs k row hrow

/-- A requeue does what the journal's model does. -/
theorem requeueRecoveryDispatch_agrees {id kind scope : String} {automatic : Bool}
     (hs : Agrees s) : Stored.db <$> s.requeueRecoveryDispatch id kind scope automatic clock =
      Controller.requeueRecoveryDispatch id kind scope automatic clock.seconds s.db := by
  rw [Stored.requeueRecoveryDispatch, Controller.requeueRecoveryDispatch]
  simp only [map_bind]
  refine bind_congr fun _ => bind_congr fun _ => bind_congr fun _ => ?_
  cases hd : s.db.getDispatch id with
  | none => rfl
  | some d =>
    cases ho : s.db.getOperation id with
    | none => rfl
    | some o =>
      simp only [map_bind]
      refine bind_congr (m := Except Error) fun _ => ?_
      by_cases hf : o.finishing = true
      · simp only [if_pos hf, requeueRetryText_eq (hs id o ho), map_bind, map_pure, bind_pure]
      · simp only [if_neg hf, map_bind, map_pure, bind_pure]

/-! ## Due operations -/

/-- An accepted operation whose dispatch waits for its next attempt. -/
structure Waiting (db : Database) (id : OperationId) (o : Operation) (d : OperationDispatch) :
    Prop where
  operation : db.getOperation id = some o
  dispatch : db.getDispatch id = some d
  finishing : o.finishing = true
  running : o.status = .running
  recovery : d.status = .recoveryRequired

/-- The rows of the query. -/
theorem mem_dueRows_iff {text : Text} : (id, text) ∈ s.dueRows clock ↔
      ∃ o d, Waiting s.db id o d ∧ s.nextAt id = some text ∧ text ≤ utcNow clock := by
  rw [Stored.dueRows, List.mem_filterMap]
  constructor
  · rintro ⟨⟨k, o⟩, hmem, h⟩
    have ho : s.db.getOperation k = some o := Table.lookup_eq_some_iff.mpr hmem
    split at h
    · rename_i d nextAt hd hnext
      split at h
      · rename_i hdue
        simp only [Bool.and_eq_true, beq_iff_eq, decide_eq_true_eq] at hdue
        obtain ⟨⟨⟨hf, hrunning⟩, hrecovery⟩, hle⟩ := hdue
        cases h
        exact ⟨o, d, ⟨ho, hd, hf, hrunning, hrecovery⟩, hnext, hle⟩
      · cases h
    · cases h
  · rintro ⟨o, d, hwaiting, hnext, hle⟩
    refine ⟨⟨id, o⟩, Table.lookup_eq_some_iff.mp hwaiting.operation, ?_⟩
    simp [hwaiting.dispatch, hnext, hwaiting.finishing, hwaiting.running, hwaiting.recovery, hle]

/-- The rows of the query of the journal's model. -/
theorem mem_journal_dueRows_iff {now : Timestamp} {db : Database} {next : Timestamp} :
    (id, next) ∈ Controller.dueRows now db ↔
      ∃ o d, Waiting db id o d ∧ o.refs.retry.nextAt = some next ∧ next ≤ now := by
  rw [Controller.dueRows, List.mem_filterMap]
  constructor
  · rintro ⟨⟨k, o⟩, hmem, h⟩
    have ho : db.getOperation k = some o := Table.lookup_eq_some_iff.mpr hmem
    split at h
    · rename_i d nextAt hd hnext
      split at h
      · rename_i hdue
        simp only [Bool.and_eq_true, beq_iff_eq, decide_eq_true_eq] at hdue
        obtain ⟨⟨⟨hf, hrunning⟩, hrecovery⟩, hle⟩ := hdue
        cases h
        exact ⟨o, d, ⟨ho, hd, hf, hrunning, hrecovery⟩, hnext, hle⟩
      · cases h
    · cases h
  · rintro ⟨o, d, hwaiting, hnext, hle⟩
    refine ⟨⟨id, o⟩, Table.lookup_eq_some_iff.mp hwaiting.operation, ?_⟩
    simp [hwaiting.dispatch, hnext, hwaiting.finishing, hwaiting.running, hwaiting.recovery, hle]

/-- The rows of the query are those of the journal's model. -/
theorem dueRows_agrees (hs : Agrees s) (id : OperationId) : (∃ text, (id, text) ∈ s.dueRows clock) ↔
      ∃ second, (id, second) ∈ Controller.dueRows clock.seconds s.db := by
  simp only [mem_dueRows_iff, mem_journal_dueRows_iff]
  constructor
  · rintro ⟨text, o, d, hwaiting, htext, hle⟩
    rcases hs id o hwaiting.operation with ⟨hnone, -⟩ | ⟨next, hnext, hsecond⟩
    · rw [hnone] at htext
      cases htext
    · cases htext.symm.trans hnext
      exact ⟨next.seconds, o, d, hwaiting, hsecond, Moment.isoMicroseconds_le_isoSeconds.mp hle⟩
  · rintro ⟨second, o, d, hwaiting, hsecond, hle⟩
    rcases hs id o hwaiting.operation with ⟨-, hnone⟩ | ⟨next, hnext, hsame⟩
    · rw [hnone] at hsecond
      cases hsecond
    · cases hsecond.symm.trans hsame
      exact ⟨next.isoMicroseconds, o, d, hwaiting, hnext,
        Moment.isoMicroseconds_le_isoSeconds.mpr hle⟩

/-- The page has a row of the query, unless 32 rows that are no later fill it. -/
theorem mem_duePage_or {row : OperationId × Text} (h : row ∈ s.dueRows clock) :
    row ∈ s.duePage clock ∨
      ((s.duePage clock).length = 32 ∧ ∀ other ∈ s.duePage clock, other.2 ≤ row.2) :=
  mem_take_insertionSort_or (fun a b : OperationId × Text => a.2 ≤ b.2) h

/-- What `due` returns is a row of the query. -/
theorem mem_dueRows_of_mem_due (h : id ∈ s.due clock) : ∃ text, (id, text) ∈ s.dueRows clock := by
  obtain ⟨⟨k, text⟩, hmem, rfl⟩ := List.mem_map.mp h
  exact ⟨text, (List.mem_insertionSort _).mp (List.mem_of_mem_take hmem)⟩

/-! ## Requeues -/

/-- A retry record that takes no more room passes as well. -/
theorem checkRefs_withRetry {refs : Refs} {retry' : FinishingRetry}
    (h : checkRefs (refs.withRetry retry) = .ok ())
    (hsize : Refs.retrySize retry' ≤ Refs.retrySize retry) :
    checkRefs (refs.withRetry retry') = .ok () := by
  rw [checkRefs] at h ⊢
  have hmembers : (refs.withRetry retry').members = (refs.withRetry retry).members := rfl
  rw [hmembers]
  split at h
  · cases h
  · have hfits := of_decide_eq_true (require_eq_ok.mp h)
    refine require_eq_ok.mpr (decide_eq_true ?_)
    rw [Refs.size, Refs.withRetry] at hfits ⊢
    dsimp only at hfits ⊢
    have hsame : Refs.members { refs with finishingRetry := some retry' } =
        Refs.members { refs with finishingRetry := some retry } := rfl
    rw [hsame]
    omega

/-- The record of a begun attempt takes less room than that of the attempt to come. -/
theorem retrySize_next (now : Timestamp) (retry : FinishingRetry) {delay : Nat}
    (h : retryDelays[retry.attempts]? = some delay) :
    Refs.retrySize ⟨retry.attempts + 1, none⟩ ≤ Refs.retrySize (scheduledRetry now retry) := by
  obtain ⟨hless, -⟩ := List.getElem?_eq_some_iff.mp h
  have hdigits : ∀ n ≤ 5, (toString n).length = 1 := by decide
  have hattempts : retry.attempts < 5 := hless
  rw [scheduledRetry, h, Refs.retrySize, Refs.retrySize]
  dsimp only
  rw [hdigits _ hattempts, hdigits _ (Nat.le_of_lt hattempts)]
  simp

/-- An operation that waits for its next attempt, in rows as they are inserted. -/
structure Awaits (s : Stored) (id : OperationId) (o : Operation) (d : OperationDispatch) : Prop
    extends Waiting s.db id o d where
  uuid : isUuid id = true
  kindToken : isOperationToken o.kind = true
  scopeToken : isOperationToken o.scope = true
  kind : d.kind = o.kind
  scope : d.scope = o.scope

/-- An automatic requeue of an operation that waits is accepted when its text is no later, and the
record of the attempt fits. -/
theorem exists_requeue {o : Operation} {d : OperationDispatch} {text : Text} (h : Awaits s id o d)
    (htext : s.nextAt id = some text) (hle : text ≤ utcNow clock)
    (hrefs : checkRefs (o.refs.withRetry ⟨o.refs.retry.attempts + 1, none⟩) = .ok ()) :
    ∃ s', s.requeueRecoveryDispatch id o.kind o.scope true clock = .ok s' := by
  have huuid : checkUuid "operation_id" id = .ok () := require_eq_ok.mpr h.uuid
  have hkind : operationToken "kind" o.kind = .ok () := require_eq_ok.mpr h.kindToken
  have hscope : operationToken "scope" o.scope = .ok () := require_eq_ok.mpr h.scopeToken
  have hn : o.nonterminal = true := by
    rw [Operation.nonterminal, h.running]
    rfl
  have heligible : requeueEligible o.kind o.scope d o = true :=
    requeueEligible_iff.mpr ⟨h.recovery, hn, .inr h.finishing, h.kind, h.scope, rfl, rfl⟩
  have hretry : requeueRetryText true clock (some text) o.refs.retry =
      .ok ⟨o.refs.retry.attempts + 1, none⟩ := if_neg (not_lt_of_ge hle)
  have hamends : Amends o { o with refs := o.refs.withRetry ⟨o.refs.retry.attempts + 1, none⟩ } :=
    ⟨hn, rfl, rfl, rfl⟩
  obtain ⟨db₁, hput⟩ := hamends.exists_put h.operation
  have hsame : db₁.getDispatch id = some d := by
    obtain ⟨-, -, rfl⟩ := Database.putOperation_eq_ok.mp hput
    exact h.dispatch
  have hactive : d.status.active = true := by
    rw [h.recovery]
    rfl
  obtain ⟨db₂, hdispatch⟩ : ∃ db₂, db₁.putDispatch id
      { d with status := .pending, updatedAt := clock.seconds } = .ok db₂ :=
    exists_putDispatch_of_active hsame hactive rfl rfl
  refine ⟨⟨db₂, Function.update s.nextAt id none⟩, ?_⟩
  rw [Stored.requeueRecoveryDispatch, huuid, hkind, hscope, h.dispatch, h.operation]
  simp only [heligible, htext, hretry, hrefs, hput, hdispatch, if_pos h.finishing, if_true, require,
    bind, Except.bind, pure, Except.pure]

/-- An automatic requeue that is accepted has a text that is no later. -/
theorem le_of_requeue {s' : Stored} {o : Operation} {d : OperationDispatch} {text : Text}
    {kind scope : String} (h : Waiting s.db id o d) (htext : s.nextAt id = some text)
    (hok : s.requeueRecoveryDispatch id kind scope true clock = .ok s') :
    text ≤ utcNow clock := by
  rw [Stored.requeueRecoveryDispatch] at hok
  simp only [check_bind_eq_ok, h.dispatch, h.operation] at hok
  obtain ⟨-, -, -, -, hok⟩ := hok
  rw [if_pos h.finishing] at hok
  obtain ⟨retry, hretry, -⟩ := bind_eq_ok.mp hok
  rw [htext, requeueRetryText, if_pos rfl] at hretry
  by_contra hlater
  have hlt : utcNow clock < text := lt_of_not_ge hlater
  simp only [if_pos hlt] at hretry
  cases hretry

/-- **Retry times.**  An operation that `schedule` gave a next attempt and that waits for it is due
from the second of that time on, and not before; `due` returns it unless 32 rows that are no later
fill its page, and an automatic requeue is accepted. -/
theorem retry_times {s₀ s₁ s : Stored} {id : OperationId} {now clock : Moment} {o : Operation}
    {d : OperationDispatch} (hscheduled : s₀.schedule id now = .ok (s₁, true))
    (hawaits : Awaits s id o d) (hrow : s.db.getOperation id = s₁.db.getOperation id)
    (htext : s.nextAt id = s₁.nextAt id) :
    ∃ delay ∈ retryDelays, ∃ next : Moment, now.add delay = some next ∧
      s.nextAt id = some next.isoMicroseconds ∧
      (id ∈ s.due clock → next.seconds ≤ clock.seconds) ∧
      (next.seconds ≤ clock.seconds → id ∈ s.due clock ∨
        ((s.duePage clock).length = 32 ∧
          ∀ other ∈ s.duePage clock, other.2 ≤ next.isoMicroseconds)) ∧
      ((∃ s', s.requeueRecoveryDispatch id o.kind o.scope true clock = .ok s') ↔
        next.seconds ≤ clock.seconds) := by
  rcases schedule_cases hscheduled with ⟨-, hfalse, -⟩ | ⟨o₀, text, -, -, -, hnext, hrefs, hput,
    hupdate, hsome⟩
  · cases hfalse
  · obtain ⟨text, rfl⟩ := Option.isSome_iff_exists.mp hsome.symm
    obtain ⟨delay, hdelay, next, hadd, rfl⟩ := nextAtText_some hnext
    have hstored : s.nextAt id = some next.isoMicroseconds := by
      rw [htext, hupdate, Function.update_self]
    have ho : o = scheduledRow now.seconds o₀ := by
      have := hawaits.operation
      rw [hrow, Database.getOperation_put hput, if_pos rfl] at this
      exact (Option.some.inj this).symm
    refine ⟨delay, List.mem_of_getElem? hdelay, next, hadd, hstored, fun hdue => ?_, fun hle => ?_,
      ⟨?_, fun hle => ?_⟩⟩
    · obtain ⟨text, hmem⟩ := mem_dueRows_of_mem_due hdue
      obtain ⟨-, -, -, hsame, hle⟩ := mem_dueRows_iff.mp hmem
      cases hsame.symm.trans hstored
      exact Moment.isoMicroseconds_le_isoSeconds.mp hle
    · have hmem : (id, next.isoMicroseconds) ∈ s.dueRows clock :=
        mem_dueRows_iff.mpr ⟨o, d, hawaits.toWaiting, hstored,
          Moment.isoMicroseconds_le_isoSeconds.mpr hle⟩
      rcases mem_duePage_or hmem with hpage | hfull
      · exact .inl (List.mem_map.mpr ⟨_, hpage, rfl⟩)
      · exact .inr hfull
    · rintro ⟨s', hok⟩
      exact Moment.isoMicroseconds_le_isoSeconds.mp (le_of_requeue hawaits.toWaiting hstored hok)
    · refine exists_requeue hawaits hstored (Moment.isoMicroseconds_le_isoSeconds.mpr hle) ?_
      -- the record without a next time takes less room than the one that `schedule` wrote
      rw [ho]
      exact checkRefs_withRetry hrefs (retrySize_next now.seconds o₀.refs.retry hdelay)

/-! ## Waiting operations -/

/-- `schedule` gives an attempt to a finishing operation whose record fits. -/
theorem exists_schedule {o : Operation} {next : Moment} {delay : Nat}
    (ho : s.db.getOperation id = some o) (hf : o.finishing = true) (hn : o.nonterminal = true)
    (hdelay : retryDelays[o.refs.retry.attempts]? = some delay) (hadd : now.add delay = some next)
    (hrefs : checkRefs (scheduledRefs now.seconds o.refs) = .ok ()) :
    ∃ s', s.schedule id now = .ok (s', true) ∧ s'.nextAt id = some next.isoMicroseconds ∧
      s'.db.getOperation id = some (scheduledRow now.seconds o) := by
  obtain ⟨db', hput⟩ := (amends_scheduledRow hn now.seconds).exists_put ho
  have htext : nextAtText now o.refs.retry.attempts = .ok (some next.isoMicroseconds) := by
    rw [nextAtText, hdelay]
    exact congrArg sumText hadd
  have hdb : Controller.schedule id now.seconds s.db = .ok db' := by
    rw [schedule_of_pending ho hf hn, hrefs]
    exact hput
  refine ⟨⟨db', Function.update s.nextAt id (some next.isoMicroseconds)⟩, ?_,
    Function.update_self .., ?_⟩
  · simp only [Stored.schedule, ho, hf, hn, Bool.and_self, if_true, htext, hdb, bind, Except.bind,
      Except.mapError, pure, Except.pure, Option.isSome_some]
  · rw [Database.getOperation_put hput, if_pos rfl]

/-- A text that ends with two digits. -/
def numbered (start : List Char) (n : Nat) : String :=
  String.ofList (start ++ [Char.ofNat (48 + n / 10), Char.ofNat (48 + n % 10)])

theorem numbered_inj {start : List Char} {n m : Nat} (hn : n < 33) (hm : m < 33)
    (h : numbered start n = numbered start m) : n = m := by
  have hdigit : ∀ k < 0x80, (Char.ofNat k).toNat = k :=
    fun k hk => Text.ofNat_toNat_of_isScalar (Text.isScalar_of_lt hk)
  have hdigits := congrArg (List.map Char.toNat)
    (List.append_cancel_left (String.ofList_injective h))
  simp only [List.map_cons, List.map_nil, List.cons.injEq] at hdigits
  rw [hdigit _ (by omega), hdigit _ (by omega), hdigit _ (by omega), hdigit _ (by omega)] at hdigits
  omega

/-- A table of 33 numbered rows. -/
def numberedRows {ρ : Type} (start : List Char) (row : Nat → ρ) : Table OperationId ρ where
  entries := (List.range 33).map fun n => ⟨numbered start n, row n⟩
  nodupKeys := by
    rw [List.NodupKeys, List.keys, List.map_map]
    refine List.Nodup.map_on (fun n hn m hm h => ?_) List.nodup_range
    exact numbered_inj (List.mem_range.mp hn) (List.mem_range.mp hm) h

theorem lookup_numberedRows {ρ : Type} {start : List Char} {row : Nat → ρ} {r : ρ} :
    (numberedRows start row).lookup id = some r ↔
      ∃ n < 33, id = numbered start n ∧ r = row n := by
  rw [Table.lookup_eq_some_iff, numberedRows, List.mem_map]
  constructor
  · rintro ⟨n, hn, heq⟩
    cases heq
    exact ⟨n, List.mem_range.mp hn, rfl, rfl⟩
  · rintro ⟨n, hn, rfl, rfl⟩
    exact ⟨n, List.mem_range.mpr hn, rfl⟩

/-- A partial unique index whose values are numbered as the rows are. -/
theorem uniqueIndex_numberedRows {ρ : Type} {start scopes : List Char} {row : Nat → ρ}
    {slot : ρ → Option String} (h : ∀ n s, slot (row n) = some s → s = numbered scopes n) :
    Table.UniqueIndex slot (numberedRows start row) := by
  rw [Table.uniqueIndex_iff]
  intro k k' r r' i hr hr' hi hi'
  obtain ⟨n, hn, rfl, rfl⟩ := lookup_numberedRows.mp hr
  obtain ⟨m, hm, rfl, rfl⟩ := lookup_numberedRows.mp hr'
  rw [numbered_inj hn hm ((h n i hi).symm.trans (h m i hi'))]

def sampleId (n : Nat) : OperationId := numbered "00000000-0000-4000-8000-0000000000".toList n

def sampleScope (n : Nat) : String := numbered "app-".toList n

/-- A quarter of a second into 2026. -/
def sampleNow : Moment := ⟨739616 * 86400 * 1000000 + 250000, by norm_num [maxMicros]⟩

/-- A minute later. -/
def sampleNext : Moment := ⟨739616 * 86400 * 1000000 + 60250000, by norm_num [maxMicros]⟩

/-- Three seconds after that. -/
def sampleClock : Moment := ⟨739616 * 86400 * 1000000 + 63000000, by norm_num [maxMicros]⟩

example : sampleNext.isoMicroseconds = Text.ofString "2026-01-01T00:01:00.250000Z" := by
  decide +kernel

def sampleOperation (n : Nat) : Operation :=
  ⟨"app.deploy", sampleScope n, .running, "accepted", "",
    Refs.empty.withRetry ⟨0, some sampleNext.seconds⟩, none, "pending", true⟩

def sampleDispatch (n : Nat) : OperationDispatch :=
  ⟨"app.deploy", sampleScope n, .recoveryRequired, 0, true⟩

/-- Operations of 33 applications, whose first attempts failed at one time. -/
def sampleStored : Stored where
  db :=
    { Database.empty with
      operations := numberedRows "00000000-0000-4000-8000-0000000000".toList sampleOperation
      dispatches := numberedRows "00000000-0000-4000-8000-0000000000".toList sampleDispatch
      one_unfinished_operation := uniqueIndex_numberedRows fun _ _ h =>
        (Operation.unfinishedScope_eq_some.mp h).2.2.symm
      one_finishing_operation := uniqueIndex_numberedRows fun _ _ h =>
        (Operation.finishingScope_eq_some.mp h).2.2.symm
      one_active_dispatch := uniqueIndex_numberedRows fun _ _ h =>
        (OperationDispatch.activeScope_eq_some.mp h).2.2.symm
      one_finishing_dispatch := uniqueIndex_numberedRows fun _ _ h =>
        (OperationDispatch.finishingScope_eq_some.mp h).2.2.symm }
  nextAt := fun _ => some sampleNext.isoMicroseconds

theorem sample_awaits {n : Nat} (hn : n < 33) :
    Awaits sampleStored (sampleId n) (sampleOperation n) (sampleDispatch n) where
  operation := lookup_numberedRows.mpr ⟨n, hn, rfl, rfl⟩
  dispatch := lookup_numberedRows.mpr ⟨n, hn, rfl, rfl⟩
  finishing := rfl
  running := rfl
  recovery := rfl
  uuid := by
    have h : ∀ n < 33, isUuid (sampleId n) = true := by
      simp (disch := rfl) only [sampleId, numbered, isUuid, toList_of_eq_ofList]
      decide +kernel
    exact h n hn
  kindToken := by
    have h : isOperationToken "app.deploy" = true := by decide +kernel
    exact h
  scopeToken := by
    have h : ∀ n < 33, isOperationToken (sampleScope n) = true := by
      simp (disch := rfl) only [sampleScope, numbered, isOperationToken, toList_of_eq_ofList]
      decide +kernel
    exact h n hn
  kind := rfl
  scope := rfl

/-- Each of the operations is as `schedule` leaves it. -/
theorem sample_scheduled {n : Nat} (hn : n < 33) :
    ∃ s₁, sampleStored.schedule (sampleId n) sampleNow = .ok (s₁, true) ∧
      sampleStored.db.getOperation (sampleId n) = s₁.db.getOperation (sampleId n) ∧
      sampleStored.nextAt (sampleId n) = s₁.nextAt (sampleId n) := by
  have ho := (sample_awaits hn).operation
  have hadd : sampleNow.add 60 = some sampleNext := by
    rw [Moment.add, dif_pos (by norm_num [sampleNow, maxMicros])]
    rfl
  have hrefs : checkRefs (scheduledRefs sampleNow.seconds
      (Refs.empty.withRetry ⟨0, some sampleNext.seconds⟩)) = .ok () := by
    decide +kernel
  obtain ⟨s₁, hschedule, htext, hrow⟩ := exists_schedule ho rfl rfl rfl hadd hrefs
  exact ⟨s₁, hschedule, by rw [ho, hrow]; rfl, htext.symm⟩

/-- One of 33 operations whose time has passed is not returned. -/
theorem due_full : ∃ n < 33, ∃ s₁,
    sampleStored.schedule (sampleId n) sampleNow = .ok (s₁, true) ∧
      Awaits sampleStored (sampleId n) (sampleOperation n) (sampleDispatch n) ∧
      sampleStored.db.getOperation (sampleId n) = s₁.db.getOperation (sampleId n) ∧
      sampleStored.nextAt (sampleId n) = s₁.nextAt (sampleId n) ∧
      s₁.nextAt (sampleId n) = some sampleNext.isoMicroseconds ∧
      sampleNext.seconds < sampleClock.seconds ∧ sampleId n ∉ sampleStored.due sampleClock := by
  have hmissing : ∃ n < 33, sampleId n ∉ sampleStored.due sampleClock := by
    by_contra hall
    push Not at hall
    have hsub : (List.range 33).map sampleId ⊆ sampleStored.due sampleClock := by
      intro id hid
      obtain ⟨n, hn, rfl⟩ := List.mem_map.mp hid
      exact hall n (List.mem_range.mp hn)
    have hnodup : ((List.range 33).map sampleId).Nodup :=
      List.Nodup.map_on (fun n hn m hm h =>
        numbered_inj (List.mem_range.mp hn) (List.mem_range.mp hm) h) List.nodup_range
    have hlength := (hnodup.subperm hsub).length_le
    rw [List.length_map, List.length_range, Stored.due, List.length_map, Stored.duePage,
      List.length_take] at hlength
    omega
  obtain ⟨n, hn, hdue⟩ := hmissing
  obtain ⟨s₁, hschedule, hrow, htext⟩ := sample_scheduled hn
  exact ⟨n, hn, s₁, hschedule, sample_awaits hn, hrow, htext, htext.symm, by decide, hdue⟩

/-- The first of them is due at the clock, or 32 others are. -/
theorem retry_times_first : ∃ delay ∈ retryDelays, ∃ next : Moment,
    sampleNow.add delay = some next ∧
      sampleStored.nextAt (sampleId 0) = some next.isoMicroseconds ∧
      (sampleId 0 ∈ sampleStored.due sampleClock → next.seconds ≤ sampleClock.seconds) ∧
      (next.seconds ≤ sampleClock.seconds → sampleId 0 ∈ sampleStored.due sampleClock ∨
        ((sampleStored.duePage sampleClock).length = 32 ∧
          ∀ other ∈ sampleStored.duePage sampleClock, other.2 ≤ next.isoMicroseconds)) ∧
      ((∃ s', sampleStored.requeueRecoveryDispatch (sampleId 0) (sampleOperation 0).kind
          (sampleOperation 0).scope true sampleClock = .ok s') ↔
        next.seconds ≤ sampleClock.seconds) := by
  obtain ⟨s₁, hschedule, hrow, htext⟩ := sample_scheduled (n := 0) (by decide)
  exact retry_times hschedule (sample_awaits (by decide)) hrow htext

end RetryTimes

end Controller
end OpenstackPlatform
