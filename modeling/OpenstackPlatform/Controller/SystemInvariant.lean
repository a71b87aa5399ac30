import OpenstackPlatform.Controller.Startup
import Mathlib.Data.List.Perm.Basic

/-!
# The invariant of the executor

What holds of the executor's memory after every event, together with the database.

* `Holds`: every queued or held item is one dispatch that is pending or running, no item is there
  twice, and the free slots and the items together make up the capacity.
* `StepCase`: all that one event can do to a system in which the invariant holds.
* `sysInv_of_run`: the invariant holds in every reachable state.
-/

namespace OpenstackPlatform
namespace Controller

open Library

/-! ## Items -/

/-- The item a worker holds. -/
def Worker.item : Worker → Option OperationId
  | .busy id _ => some id
  | .idle | .dead => none

/-- The accepted items: those in the queue and those that workers hold. -/
def Executor.items (x : Executor) : List OperationId :=
  x.queue ++ x.workers.filterMap Worker.item

section Items

variable {ws : List Worker} {n : Nat} {w w' : Worker}

/-- The items of all workers are the item of one and those of the others. -/
theorem items_perm (hn : ws[n]? = some w) :
    (ws.filterMap Worker.item).Perm
      (w.item.toList ++ (ws.eraseIdx n).filterMap Worker.item) := by
  obtain ⟨hlt, rfl⟩ := List.getElem?_eq_some_iff.mp hn
  have hperm := (List.getElem_cons_eraseIdx_perm hlt).symm.filterMap Worker.item
  rw [List.filterMap_cons] at hperm
  cases hitem : ws[n].item with
  | none => simpa [hitem] using hperm
  | some id => simpa [hitem] using hperm

theorem items_set_perm (hn : ws[n]? = some w) :
    ((ws.set n w').filterMap Worker.item).Perm
      (w'.item.toList ++ (ws.eraseIdx n).filterMap Worker.item) := by
  obtain ⟨hlt, rfl⟩ := List.getElem?_eq_some_iff.mp hn
  have hperm := (List.set_perm_cons_eraseIdx hlt w').filterMap Worker.item
  rw [List.filterMap_cons] at hperm
  cases hitem : w'.item with
  | none => simpa [hitem] using hperm
  | some id => simpa [hitem] using hperm

/-- A worker that moves on with its item leaves the items as they were. -/
theorem items_set_same (hn : ws[n]? = some w) (hitem : w'.item = w.item) :
    ((ws.set n w').filterMap Worker.item).Perm (ws.filterMap Worker.item) := by
  refine (items_set_perm hn).trans ?_
  rw [hitem]
  exact (items_perm hn).symm

/-- A worker of a list after one of them was replaced. -/
theorem mem_set {v : Worker} (h : v ∈ ws.set n w') :
    v = w' ∨ v ∈ ws := by
  obtain ⟨i, hi, rfl⟩ := List.mem_iff_getElem.mp h
  rw [List.getElem_set]
  split
  · exact .inl rfl
  · exact .inr (List.getElem_mem _)

/-- An item is with one worker only, so it is at one stage. -/
theorem stage_unique (hnodup : (ws.filterMap Worker.item).Nodup) {id : OperationId}
    {stage stage' : Stage} (h : .busy id stage ∈ ws) (h' : .busy id stage' ∈ ws) :
    stage = stage' := by
  by_contra hne
  have hsymm : Std.Symm fun v v' : Worker => ∀ k, v.item = some k → v'.item ≠ some k :=
    ⟨fun v v' hv k hk hk' => hv k hk' hk⟩
  have hpair := List.Pairwise.forall ((Table.nodup_filterMap_iff_pairwise _ _).mp hnodup) h h'
    (fun he => hne (Worker.busy.inj he).2)
  exact hpair id rfl rfl

/-- The item of a worker that is replaced is with no other worker. -/
theorem mem_set_ne (hnodup : (ws.filterMap Worker.item).Nodup) {id k : OperationId}
    {stage stage' : Stage} (hn : ws[n]? = some (.busy id stage))
    (h : .busy k stage' ∈ ws.set n w') (hne : Worker.busy k stage' ≠ w') :
    .busy k stage' ∈ ws ∧ k ≠ id := by
  refine ⟨(mem_set h).resolve_left hne, ?_⟩
  rintro rfl
  have hrest := ((items_perm hn).nodup_iff.mp hnodup)
  simp only [Worker.item, Option.toList_some, List.singleton_append, List.nodup_cons] at hrest
  -- the busy worker of the new list is one of the others
  obtain ⟨hlt, -⟩ := List.getElem?_eq_some_iff.mp hn
  have hmem := (List.set_perm_cons_eraseIdx hlt w').mem_iff.mp h
  obtain he | hmem := List.mem_cons.mp hmem
  · exact hne he
  · exact hrest.1 (List.mem_filterMap.mpr ⟨_, hmem, rfl⟩)

end Items

/-! ## The invariant -/

/-- What holds of the executor's memory next to the database. -/
structure Holds (x : Executor) (db : Database) : Prop where
  nodup : x.items.Nodup
  queued : ∀ id ∈ x.queue, db.statusOf id = some .pending
  held : ∀ id stage, .busy id stage ∈ x.workers → Held db id stage
  slots : x.slots.free + x.items.length = x.slots.capacity

/-- What holds of the database and of the executor while the process runs. -/
structure SysInv (s : System) : Prop where
  dbInv : DbInv s.db
  holds : ∀ x, s.executor = some x → Holds x s.db

/-- A row that was not written is held as before. -/
theorem Held.frame {db db' : Database} {id : OperationId} {stage : Stage} (h : Held db id stage)
    (hsame : Call.SameRows db db' id) : Held db' id stage where
  status := by
    have hstatus := h.status
    simp only [Database.AtStage, Database.Interrupted, Database.statusOf, hsame.1] at hstatus ⊢
    exact hstatus
  begun hstage := by
    rw [hsame.2]
    exact h.begun hstage
  settling e hstage := by
    rw [hsame.2]
    exact h.settling e hstage

namespace Holds

variable {x : Executor} {db db' : Database}

variable {id : OperationId}

/-- Every item is a dispatch that is pending or running. -/
theorem interrupted (h : Holds x db) (hid : id ∈ x.items) : db.Interrupted id := by
  obtain hqueue | hworker := List.mem_append.mp hid
  · exact ⟨_, h.queued id hqueue, rfl⟩
  · obtain ⟨w, hw, hitem⟩ := List.mem_filterMap.mp hworker
    cases w with
    | idle => exact absurd hitem (by simp [Worker.item])
    | dead => exact absurd hitem (by simp [Worker.item])
    | busy k stage =>
      obtain rfl := Option.some.inj hitem
      exact (h.held k stage hw).interrupted

variable {stage : Stage}

/-- A held item is an item. -/
theorem mem_items (h : .busy id stage ∈ x.workers) : id ∈ x.items :=
  List.mem_append_right _ (List.mem_filterMap.mpr ⟨_, h, rfl⟩)

theorem nodup_workers (h : Holds x db) : (x.workers.filterMap Worker.item).Nodup :=
  (List.nodup_append.mp h.nodup).2.1

/-- A queued item is with no worker. -/
theorem not_queued (h : Holds x db) (hw : .busy id stage ∈ x.workers) : id ∉ x.queue := fun hq =>
  (List.nodup_append.mp h.nodup).2.2 id hq id (List.mem_filterMap.mpr ⟨_, hw, rfl⟩) rfl

/-- A worker that moves on keeps the items as they are. -/
theorem items_move {n : Nat} {stage' : Stage} (hn : x.workers[n]? = some (.busy id stage)) :
    ({ x with workers := x.workers.set n (.busy id stage') } : Executor).items.Perm x.items := by
  have hset : ((x.workers.set n (.busy id stage')).filterMap Worker.item).Perm
      (x.workers.filterMap Worker.item) := items_set_same hn rfl
  exact hset.append_left x.queue

/-- A worker moves on with its item. -/
theorem move (h : Holds x db) {n : Nat} {stage' : Stage}
    (hn : x.workers[n]? = some (.busy id stage)) (hheld : Held db' id stage')
    (hframe : ∀ k, k ≠ id → Call.SameRows db db' k) :
    Holds { x with workers := x.workers.set n (.busy id stage') } db' := by
  have hw : .busy id stage ∈ x.workers := List.mem_of_getElem? hn
  have hperm : ({ x with workers := x.workers.set n (.busy id stage') } : Executor).items.Perm
      x.items := items_move hn
  refine ⟨hperm.nodup_iff.mpr h.nodup, ?_, ?_, ?_⟩
  · intro k hk
    have hne : k ≠ id := by
      rintro rfl
      exact h.not_queued hw hk
    rw [Database.statusOf, (hframe k hne).1]
    exact h.queued k hk
  · intro k stage₁ hk
    by_cases heq : Worker.busy k stage₁ = .busy id stage'
    · obtain ⟨rfl, rfl⟩ := Worker.busy.inj heq
      exact hheld
    · obtain ⟨hk, hne⟩ := mem_set_ne h.nodup_workers hn hk heq
      exact (h.held k stage₁ hk).frame (hframe k hne)
  · rw [hperm.length_eq]
    exact h.slots

end Holds

/-! ## Steps -/

/-- The executor after it accepted an item. -/
def Executor.accept (x : Executor) (id : OperationId) : Executor :=
  { x with slots := { x.slots with free := x.slots.free - 1 }, queue := x.queue ++ [id] }

/-- The executor after a worker left the `finally` block. -/
def Executor.finish (x : Executor) (n : Nat) (escaped : Option Error) : Executor :=
  { x with
    slots := { x.slots with free := x.slots.free + 1 }
    workers := x.workers.set n (if escaped.isNone then .idle else .dead) }

/-- What is seen of a worker that leaves the `finally` block. -/
def Outcome.ofEscaped : Option Error → Outcome
  | none => .done
  | some e => .escaped e

/-- The events that are requests to the executor or calls of the journal functions. -/
def Event.requests : Event → Bool
  | .call _ | .submit _ _ _ _ | .resubmitRecovery _ _ _ _ _ => true
  | _ => false

/-- All that one event can do to a system in which the invariant holds. -/
inductive StepCase (s : System) : Event → Outcome → System → Prop where
  | raised {event : Event} (hevent : event.requests = true) (e : Error) :
      StepCase s event (.raised e) s
  | replayed (id kind scope : String) (now : Timestamp) :
      StepCase s (.submit id kind scope now) .done s
  | called {call : Call} {db' : Database} (hissued : s.callIssued call = true)
      (hok : call.run s.db = .ok db') : StepCase s (.call call) .done { s with db := db' }
  | enqueued {x : Executor} {id kind scope : String} {now : Timestamp} {db' : Database}
      (hx : s.executor = some x) (hfree : 0 < x.slots.free)
      (hok : enqueueOperationDispatch id kind scope now s.db = .ok (true, db')) :
      StepCase s (.submit id kind scope now) .done ⟨db', some (x.accept id)⟩
  | requeued {x : Executor} {id kind scope : String} {automatic : Bool} {now : Timestamp}
      {db' : Database} (hx : s.executor = some x) (hfree : 0 < x.slots.free)
      (hissued : retryIssued s.db id automatic = true)
      (hok : requeueRecoveryDispatch id kind scope automatic now s.db = .ok db') :
      StepCase s (.resubmitRecovery id kind scope automatic now) .done
        ⟨db', some (x.accept id)⟩
  | took {x : Executor} {n : Nat} {id : OperationId} {queue : List OperationId}
      (hx : s.executor = some x) (hn : x.workers[n]? = some .idle) (hq : x.queue = id :: queue) :
      StepCase s (.take n) .done
        ⟨s.db, some { x with queue := queue, workers := x.workers.set n (.busy id .taken) }⟩
  | ended {x : Executor} {n : Nat} {id : OperationId} {event : Event} {stage : Stage}
      (hx : s.executor = some x) (hn : x.workers[n]? = some (.busy id .working))
      (hevent : (event = .workReturns n ∧ stage = .returned) ∨
        (event = .workRaises n ∧ stage = .failing)) :
      StepCase s event .done
        ⟨s.db, some { x with workers := x.workers.set n (.busy id stage) }⟩
  | advanced {x : Executor} {n : Nat} {now : Timestamp} {id : OperationId} {stage stage' : Stage}
      {db' : Database} (hx : s.executor = some x)
      (hn : x.workers[n]? = some (.busy id stage)) (hworking : stage ≠ .working)
      (hadvance : advance now s.db id stage = (db', .stage stage')) :
      StepCase s (.advance n now) .done
        ⟨db', some { x with workers := x.workers.set n (.busy id stage') }⟩
  | left {x : Executor} {n : Nat} {now : Timestamp} {id : OperationId} {stage : Stage}
      {db' : Database} {escaped : Option Error} (hx : s.executor = some x)
      (hn : x.workers[n]? = some (.busy id stage)) (hworking : stage ≠ .working)
      (hadvance : advance now s.db id stage = (db', .leave escaped)) :
      StepCase s (.advance n now) (.ofEscaped escaped) ⟨db', some (x.finish n escaped)⟩
  | closed {x : Executor} (hx : s.executor = some x) :
      StepCase s .close .done ⟨s.db, some { x with closed := true }⟩
  | stopped : StepCase s .stop .done ⟨s.db, none⟩
  | started {workers capacity : Nat} {now : Timestamp} (hx : s.executor = none)
      (hbounds : 1 ≤ workers ∧ workers ≤ capacity)
      (hok : ((recoverStartup now).run s.db).result = .ok ()) :
      StepCase s (.startup workers capacity now) .done
        ⟨((recoverStartup now).run s.db).final s.db, some (.start workers capacity)⟩
  | startupRaised {workers capacity : Nat} {now : Timestamp} {e : Error}
      (hx : s.executor = none) (herror : ((recoverStartup now).run s.db).result = .error e) :
      StepCase s (.startup workers capacity now) (.raised e)
        ⟨((recoverStartup now).run s.db).final s.db, none⟩
  | startupStopped {n : Nat} {now : Timestamp} {db' : Database} (hx : s.executor = none)
      (hdb : db' ∈ (recoverStartup now).stops s.db) :
      StepCase s (.startupStopped n now) .done ⟨db', none⟩

/-- The free slots never exceed the capacity. -/
theorem Holds.free_le {x : Executor} {db : Database} (h : Holds x db) :
    x.slots.free ≤ x.slots.capacity := by
  rw [← h.slots]
  exact Nat.le_add_right _ _

/-- A slot that was just taken can be given back. -/
theorem giveBack_acquire {x : Executor} {slots : Slots} {outcome : Outcome}
    (hle : x.slots.free ≤ x.slots.capacity) (hslots : x.slots.acquire = some slots) :
    ({ x with slots := slots } : Executor).giveBack outcome = (x, outcome) := by
  rw [Slots.acquire] at hslots
  split at hslots
  · rename_i hfree
    cases hslots
    have hlt : x.slots.free - 1 < x.slots.capacity := by omega
    have hback : x.slots.free - 1 + 1 = x.slots.free := by omega
    simp only [Executor.giveBack, Slots.release, if_pos hlt, hback]
  · cases hslots

/-- What the critical section of `submit` and `resubmit_recovery` does. -/
theorem enter_cases {x : Executor} {db : Database} {id : OperationId}
    {transaction : Database → Except Error (Bool × Database)} {s' : System} {o : Outcome}
    (hle : x.slots.free ≤ x.slots.capacity) (h : x.enter db id transaction = (s', o)) :
    ((∃ e, o = .raised e) ∧ s' = ⟨db, some x⟩) ∨
      (∃ db', transaction db = .ok (false, db') ∧ o = .done ∧ s' = ⟨db', some x⟩) ∨
      (∃ db', transaction db = .ok (true, db') ∧ 0 < x.slots.free ∧ o = .done ∧
        s' = ⟨db', some (x.accept id)⟩) := by
  rw [Executor.enter] at h
  split at h
  · obtain ⟨rfl, rfl⟩ := Prod.mk.inj h
    exact .inl ⟨⟨_, rfl⟩, rfl⟩
  · split at h
    · obtain ⟨rfl, rfl⟩ := Prod.mk.inj h
      exact .inl ⟨⟨_, rfl⟩, rfl⟩
    · rename_i slots hslots
      simp only [giveBack_acquire hle hslots] at h
      split at h
      · rename_i db' hok
        obtain ⟨rfl, rfl⟩ := Prod.mk.inj h
        rw [Slots.acquire] at hslots
        split at hslots
        · rename_i hfree
          cases hslots
          exact .inr (.inr ⟨db', hok, hfree, rfl, rfl⟩)
        · cases hslots
      · rename_i db' hok
        obtain ⟨rfl, rfl⟩ := Prod.mk.inj h
        exact .inr (.inl ⟨db', hok, rfl, rfl⟩)
      · obtain ⟨rfl, rfl⟩ := Prod.mk.inj h
        exact .inl ⟨⟨_, rfl⟩, rfl⟩

/-- A worker with an item leaves a slot to release. -/
theorem Holds.free_lt {x : Executor} {db : Database} (h : Holds x db) {id : OperationId}
    {stage : Stage} (hw : .busy id stage ∈ x.workers) : x.slots.free < x.slots.capacity := by
  have hpos : 0 < x.items.length := List.length_pos_of_mem (Holds.mem_items hw)
  have hslots := h.slots
  omega

theorem map_eq_ok {α β : Type} {x : Except Error α} {f : α → β} {b : β}
    (h : x.map f = .ok b) : ∃ a, x = .ok a ∧ f a = b := by
  cases x with
  | ok a => exact ⟨a, rfl, Except.ok.inj h⟩
  | error e => exact absurd h (by simp [Except.map])

/-- **What one event does.** -/
theorem step_cases {s s' : System} {event : Event} {o : Outcome} (h : SysInv s)
    (hstep : step s event = some (s', o)) : StepCase s event o s' := by
  obtain ⟨db, executor⟩ := s
  cases event with
  | call call =>
    simp only [step] at hstep
    split at hstep
    · rename_i hissued
      split at hstep
      · rename_i db' hok
        cases hstep
        exact .called hissued hok
      · cases hstep
        exact .raised rfl _
    · cases hstep
  | submit id kind scope now =>
    obtain ⟨x, rfl, hadmission⟩ := Option.map_eq_some_iff.mp hstep
    obtain ⟨⟨e, rfl⟩, rfl⟩ | ⟨db', hok, rfl, rfl⟩ | ⟨db', hok, hfree, rfl, rfl⟩ :=
      enter_cases (h.holds x rfl).free_le hadmission
    · exact .raised rfl e
    · obtain ⟨-, rfl, -⟩ | ⟨hcreated, -⟩ := enqueueOperationDispatch_ok hok
      · exact .replayed id kind scope now
      · cases hcreated
    · exact .enqueued rfl hfree hok
  | resubmitRecovery id kind scope automatic now =>
    simp only [step] at hstep
    split at hstep
    · rename_i hissued
      obtain ⟨x, rfl, hadmission⟩ := Option.map_eq_some_iff.mp hstep
      obtain ⟨⟨e, rfl⟩, rfl⟩ | ⟨db', hok, rfl, rfl⟩ | ⟨db', hok, hfree, rfl, rfl⟩ :=
        enter_cases (h.holds x rfl).free_le hadmission
      · exact .raised rfl e
      · obtain ⟨db₁, -, heq⟩ := map_eq_ok hok
        cases congrArg Prod.fst heq
      · obtain ⟨db₁, hrequeue, heq⟩ := map_eq_ok hok
        obtain rfl : db₁ = db' := congrArg Prod.snd heq
        exact .requeued rfl hfree hissued hrequeue
    · cases hstep
  | take n =>
    simp only [step] at hstep
    split at hstep
    · rename_i x
      split at hstep
      · rename_i id queue hn hq
        cases hstep
        exact .took rfl hn hq
      · cases hstep
    · cases hstep
  | workReturns n =>
    simp only [step] at hstep
    split at hstep
    · split at hstep
      · rename_i hn
        cases hstep
        exact .ended rfl hn (.inl ⟨rfl, rfl⟩)
      · cases hstep
    · cases hstep
  | workRaises n =>
    simp only [step] at hstep
    split at hstep
    · split at hstep
      · rename_i hn
        cases hstep
        exact .ended rfl hn (.inr ⟨rfl, rfl⟩)
      · cases hstep
    · cases hstep
  | advance n now =>
    simp only [step] at hstep
    split at hstep
    · rename_i x
      split at hstep
      · rename_i id stage hn
        split at hstep
        · cases hstep
        · rename_i hworking
          have hstep := Option.some.inj hstep
          rw [System.advance] at hstep
          split at hstep
          · rename_i db' stage' hadvance
            obtain ⟨rfl, rfl⟩ := Prod.mk.inj hstep
            exact .advanced rfl hn hworking hadvance
          · rename_i db' escaped hadvance
            have hlt := (h.holds x rfl).free_lt (List.mem_of_getElem? hn)
            simp only [Executor.leave, Slots.release, if_pos hlt] at hstep
            cases escaped with
            | none =>
              obtain ⟨rfl, rfl⟩ := Prod.mk.inj hstep
              exact StepCase.left (s := ⟨db, some x⟩) rfl hn hworking hadvance
            | some e =>
              obtain ⟨rfl, rfl⟩ := Prod.mk.inj hstep
              exact StepCase.left (s := ⟨db, some x⟩) rfl hn hworking hadvance
      · cases hstep
    · cases hstep
  | close =>
    obtain ⟨x, rfl, hclose⟩ := Option.map_eq_some_iff.mp hstep
    obtain ⟨rfl, rfl⟩ := Prod.mk.inj hclose
    exact .closed rfl
  | stop =>
    cases hstep
    exact .stopped
  | startup workers capacity now =>
    simp only [step] at hstep
    split at hstep
    · rename_i hcond
      simp only [Bool.and_eq_true, Option.isNone_iff_eq_none, decide_eq_true_eq] at hcond
      obtain ⟨⟨rfl, hworkers⟩, hcapacity⟩ := hcond
      split at hstep
      · rename_i hok
        cases hstep
        exact .started rfl ⟨hworkers, hcapacity⟩ hok
      · rename_i e herror
        cases hstep
        exact .startupRaised rfl herror
    · cases hstep
  | startupStopped n now =>
    simp only [step] at hstep
    split at hstep
    · rename_i hcond
      obtain rfl := Option.isNone_iff_eq_none.mp hcond
      obtain ⟨db', hdb, hs⟩ := Option.map_eq_some_iff.mp hstep
      obtain ⟨rfl, rfl⟩ := Prod.mk.inj hs
      exact .startupStopped rfl (List.mem_of_getElem? hdb)
    · cases hstep

/-! ## Every event keeps the invariant -/

section Keeps

variable {s s' : System} {x : Executor} {db' : Database}

/-- The calls of services and direct callers leave the queue to the executor, and are about
operations whose rows they may write. -/
theorem callIssued_cases {call : Call} (h : s.callIssued call = true) :
    call.issued s.db = true ∧ call.refsIssued s.db = true ∧ call.writesStatus = false ∧
      ∀ k, call.target = some k → s.mayWrite k = true := by
  obtain ⟨hissued, h⟩ := Bool.and_eq_true_iff.mp h
  refine ⟨hissued, ?_⟩
  cases call with
  | claimIdempotencyRequest => exact ⟨rfl, rfl, fun _ hk => absurd hk (by simp [Call.target])⟩
  | putApplication => exact ⟨rfl, rfl, fun _ hk => absurd hk (by simp [Call.target])⟩
  | retireSlug => exact ⟨rfl, rfl, fun _ hk => absurd hk (by simp [Call.target])⟩
  | beginOperation r =>
    obtain ⟨hwrite, hrefs⟩ := Bool.and_eq_true_iff.mp h
    refine ⟨hrefs, rfl, ?_⟩
    rintro k ⟨⟩
    exact hwrite
  | checkpointOperation id c =>
    obtain ⟨hwrite, hrefs⟩ := Bool.and_eq_true_iff.mp h
    refine ⟨hrefs, rfl, ?_⟩
    rintro k ⟨⟩
    exact hwrite
  | renewOperationDeadline id deadlineAt => exact ⟨rfl, rfl, by rintro k ⟨⟩; exact h⟩
  | markRecoveryRequired id phase => exact ⟨rfl, rfl, by rintro k ⟨⟩; exact h⟩
  | recordFinishingFailure id => exact ⟨rfl, rfl, by rintro k ⟨⟩; exact h⟩
  | markSucceeded id cleanup => exact ⟨rfl, rfl, by rintro k ⟨⟩; exact h⟩
  | markFailed id cleanup => exact ⟨rfl, rfl, by rintro k ⟨⟩; exact h⟩
  | markOperationFinishing id => exact ⟨rfl, rfl, by rintro k ⟨⟩; exact h⟩
  | enqueueOperationDispatch => cases h
  | requeueRecoveryDispatch => cases h
  | setOperationDispatchStatus => cases h
  | schedule => cases h

/-- Who may write an operation: a caller without a dispatch, or the work a worker is inside of. -/
theorem mayWrite_cases {k : OperationId} (h : s.mayWrite k = true) :
    s.db.getDispatch k = none ∨ ∃ x, s.executor = some x ∧ .busy k .working ∈ x.workers := by
  obtain hnone | hworking := Bool.or_eq_true_iff.mp h
  · exact .inl (Option.isNone_iff_eq_none.mp hnone)
  · right
    cases hx : s.executor with
    | none => rw [hx] at hworking; cases hworking
    | some x =>
      rw [hx] at hworking
      exact ⟨x, rfl, List.contains_iff_mem.mp hworking⟩

/-- A call of the services keeps the invariant. -/
theorem SysInv.called (h : SysInv s) {call : Call} (hissued : s.callIssued call = true)
    (hok : call.run s.db = .ok db') : SysInv { s with db := db' } := by
  obtain ⟨hcall, hrefs, hwrites, htarget⟩ := callIssued_cases hissued
  refine ⟨?_, ?_⟩
  · refine h.dbInv.other call hcall hrefs hok hwrites ?_
    intro k hk
    obtain hnone | ⟨x, hx, hw⟩ := mayWrite_cases (htarget k hk)
    · rw [Database.statusOf, hnone]
      simp
    · exact ((h.holds x hx).held k .working hw).interrupted.ne
  · intro x hx
    have hholds := h.holds x hx
    have hstatus : ∀ k, db'.statusOf k = s.db.statusOf k := Call.status_of_run call hwrites hok
    refine ⟨hholds.nodup, ?_, ?_, hholds.slots⟩
    · intro k hk
      rw [hstatus]
      exact hholds.queued k hk
    · intro k stage hw
      by_cases hk : call.target = some k
      · -- a held item is written only from inside its work
        obtain hnone | ⟨x', hx', hw'⟩ := mayWrite_cases (htarget k hk)
        · obtain ⟨status, hs, -⟩ := (hholds.held k stage hw).interrupted
          rw [Database.statusOf, hnone] at hs
          cases hs
        · cases hx.symm.trans hx'
          obtain rfl := stage_unique hholds.nodup_workers hw hw'
          refine .of_bare ?_ rfl
          rw [Database.Interrupted, hstatus]
          exact (hholds.held k .working hw).interrupted
      · exact (hholds.held k stage hw).frame (Call.frame call hok hk)

variable {id : OperationId}

/-- An item that is accepted into the queue. -/
theorem Holds.accept {db : Database} (h : Holds x db) (hfree : 0 < x.slots.free)
    (hnew : ¬ db.Interrupted id) (hpending : db'.statusOf id = some .pending)
    (hframe : ∀ k, k ≠ id → Call.SameRows db db' k) : Holds (x.accept id) db' := by
  have hne : ∀ k ∈ x.items, k ≠ id := by
    rintro k hk rfl
    exact hnew (h.interrupted hk)
  have hperm : (x.accept id).items.Perm (id :: x.items) := by
    rw [Executor.items, Executor.accept, List.append_assoc]
    exact List.perm_middle
  refine ⟨?_, ?_, ?_, ?_⟩
  · rw [hperm.nodup_iff, List.nodup_cons]
    exact ⟨fun hid => hne id hid rfl, h.nodup⟩
  · intro k hk
    obtain hk | hk := List.mem_append.mp hk
    · rw [Database.statusOf, (hframe k (hne k (List.mem_append_left _ hk))).1]
      exact h.queued k hk
    · rw [List.mem_singleton.mp hk]
      exact hpending
  · intro k stage hw
    exact (h.held k stage hw).frame (hframe k (hne k (mem_items hw)))
  · rw [hperm.length_eq, List.length_cons]
    have hslots := h.slots
    simp only [Executor.accept]
    omega

/-- The items of an executor that accepted one more. -/
theorem mem_items_accept {k : OperationId} : k ∈ (x.accept id).items ↔ k ∈ x.items ∨ k = id := by
  simp only [Executor.items, Executor.accept, List.mem_append, List.mem_singleton]
  tauto

/-- A worker that takes an item moves it from the queue to itself. -/
theorem items_take {n : Nat} {queue : List OperationId} (hn : x.workers[n]? = some .idle)
    (hq : x.queue = id :: queue) : ({ x with
      queue := queue, workers := x.workers.set n (.busy id .taken) } : Executor).items.Perm
      x.items := by
  have hset : ((x.workers.set n (.busy id .taken)).filterMap Worker.item).Perm
      (id :: (x.workers.eraseIdx n).filterMap Worker.item) := items_set_perm hn
  rw [Executor.items, Executor.items, hq]
  refine (hset.append_left queue).trans ?_
  refine List.perm_middle.trans ?_
  exact ((items_perm hn).symm.append_left queue).cons id

/-- A worker takes the first item of the queue. -/
theorem Holds.take {db : Database} {n : Nat} {id : OperationId} {queue : List OperationId}
    (h : Holds x db) (hn : x.workers[n]? = some .idle) (hq : x.queue = id :: queue) :
    Holds { x with queue := queue, workers := x.workers.set n (.busy id .taken) } db := by
  have hperm := items_take hn hq
  refine ⟨hperm.nodup_iff.mpr h.nodup, ?_, ?_, ?_⟩
  · intro k hk
    exact h.queued k (by rw [hq]; exact List.mem_cons_of_mem _ hk)
  · intro k stage hw
    obtain heq | hw := mem_set hw
    · obtain ⟨rfl, rfl⟩ := Worker.busy.inj heq
      refine ⟨?_, by simp, by simp⟩
      rw [Database.AtStage, if_pos rfl]
      exact h.queued k (by rw [hq]; exact List.mem_cons_self)
    · exact h.held k stage hw
  · rw [hperm.length_eq]
    exact h.slots

/-- The items without the one that a worker leaves. -/
theorem items_finish {n : Nat} {stage : Stage} {escaped : Option Error}
    (hn : x.workers[n]? = some (.busy id stage)) :
    x.items.Perm (id :: (x.finish n escaped).items) := by
  have hset : ((x.workers.set n (if escaped.isNone then .idle else .dead)).filterMap
      Worker.item).Perm ((x.workers.eraseIdx n).filterMap Worker.item) := by
    refine (items_set_perm hn).trans ?_
    have hitem : (if escaped.isNone then Worker.idle else .dead).item = none := by
      split <;> rfl
    rw [hitem]
    exact .refl _
  refine ((items_perm hn).append_left x.queue).trans ?_
  refine List.perm_middle.trans ?_
  exact (hset.symm.append_left x.queue).cons id

/-- A worker leaves the `finally` block. -/
theorem Holds.finish {db : Database} {n : Nat} {id : OperationId} {stage : Stage}
    {escaped : Option Error} (h : Holds x db) (hn : x.workers[n]? = some (.busy id stage))
    (hframe : ∀ k, k ≠ id → Call.SameRows db db' k) : Holds (x.finish n escaped) db' := by
  have hperm : x.items.Perm (id :: (x.finish n escaped).items) := items_finish hn
  have hnodup := List.nodup_cons.mp (hperm.nodup_iff.mp h.nodup)
  have hmem : ∀ k ∈ (x.finish n escaped).items, k ≠ id := by
    rintro k hk rfl
    exact hnodup.1 hk
  have hold : ∀ k stage', .busy k stage' ∈ (x.finish n escaped).workers →
      .busy k stage' ∈ x.workers := by
    intro k stage' hw
    obtain heq | hw := mem_set hw
    · split at heq <;> cases heq
    · exact hw
  refine ⟨hnodup.2, ?_, ?_, ?_⟩
  · intro k hk
    rw [Database.statusOf, (hframe k (hmem k (List.mem_append_left _ hk))).1]
    exact h.queued k hk
  · intro k stage' hw
    exact (h.held k stage' (hold k stage' hw)).frame (hframe k (hmem k (mem_items hw)))
  · have hslots := h.slots
    rw [hperm.length_eq, List.length_cons] at hslots
    simp only [Executor.finish] at hslots ⊢
    omega

/-- A fresh executor holds nothing. -/
theorem holds_start (workers capacity : Nat) (db : Database) :
    Holds (.start workers capacity) db := by
  have hitems : (Executor.start workers capacity).items = [] := by
    simp [Executor.items, Executor.start, Worker.item, List.filterMap_replicate]
  refine ⟨?_, ?_, ?_, ?_⟩
  · rw [hitems]
    exact List.nodup_nil
  · exact fun _ hk => absurd hk List.not_mem_nil
  · intro k stage hw
    cases List.eq_of_mem_replicate hw
  · rw [hitems]
    rfl

/-- A new dispatch is pending, and nothing else is written. -/
theorem enqueued_rows {db : Database} {id kind scope : String} {now : Timestamp}
    (h : enqueueOperationDispatch id kind scope now db = .ok (true, db')) :
    ¬ db.Interrupted id ∧ db'.statusOf id = some .pending ∧
      ∀ k, k ≠ id → Call.SameRows db db' k := by
  have hrun : (Call.enqueueOperationDispatch id kind scope now).run db = .ok db' := by
    simp only [Call.run, h]
    rfl
  obtain ⟨hcreated, -⟩ | ⟨-, -, -, -, hnone, -, -, -, request, db₁, -, hput, rfl⟩ :=
    enqueueOperationDispatch_ok h
  · cases hcreated
  · refine ⟨?_, ?_, fun k hk => Call.frame _ hrun fun he => hk (Option.some.inj he).symm⟩
    · rintro ⟨status, hstatus, -⟩
      rw [Database.statusOf, hnone] at hstatus
      cases hstatus
    · change db₁.statusOf id = some .pending
      rw [Database.statusOf, Database.getDispatch_put hput, if_pos rfl]
      rfl

/-- A requeued dispatch waited for recovery and is pending, and nothing else is written. -/
theorem requeued_rows {db : Database} {id kind scope : String} {automatic : Bool}
    {now : Timestamp} (h : requeueRecoveryDispatch id kind scope automatic now db = .ok db') :
    ¬ db.Interrupted id ∧ db'.statusOf id = some .pending ∧
      ∀ k, k ≠ id → Call.SameRows db db' k := by
  have hrun : (Call.requeueRecoveryDispatch id kind scope automatic now).run db = .ok db' := h
  obtain ⟨d, o, hd, -, heligible, hwrite⟩ := requeueRecoveryDispatch_ok h
  refine ⟨?_, ?_, fun k hk => Call.frame _ hrun fun he => hk (Option.some.inj he).symm⟩
  · rw [interrupted_iff hd, (requeueEligible_iff.mp heligible).1]
    exact Bool.false_ne_true
  · obtain ⟨-, retry, db₁, -, -, hput'⟩ | ⟨-, hput'⟩ := hwrite
    · rw [Database.statusOf, Database.getDispatch_put hput', if_pos rfl]
      rfl
    · rw [Database.statusOf, Database.getDispatch_put hput', if_pos rfl]
      rfl

/-- **Every event keeps the invariant.** -/
theorem StepCase.sysInv {event : Event} {o : Outcome} (h : SysInv s)
    (hcase : StepCase s event o s') : SysInv s' := by
  cases hcase with
  | raised => exact h
  | replayed => exact h
  | called hissued hok => exact h.called hissued hok
  | @enqueued x id kind scope now db' hx hfree hok =>
    have hrun : (Call.enqueueOperationDispatch id kind scope now).run s.db = .ok db' := by
      simp only [Call.run, hok]
      rfl
    obtain ⟨hnew, hpending, hframe⟩ := enqueued_rows hok
    refine ⟨?_, ?_⟩
    · refine h.dbInv.own (.enqueueOperationDispatch id kind scope now) rfl rfl hrun rfl ?_
      intro o' hstatus
      rw [hpending] at hstatus
      cases hstatus
    · rintro x' ⟨⟩
      exact (h.holds x hx).accept hfree hnew hpending hframe
  | @requeued x id kind scope automatic now db' hx hfree hissued hok =>
    obtain ⟨hnew, hpending, hframe⟩ := requeued_rows hok
    refine ⟨?_, ?_⟩
    · refine h.dbInv.own (.requeueRecoveryDispatch id kind scope automatic now) rfl hissued hok
        rfl ?_
      intro o' hstatus
      rw [hpending] at hstatus
      cases hstatus
    · rintro x' ⟨⟩
      exact (h.holds x hx).accept hfree hnew hpending hframe
  | @took x n id queue hx hn hq =>
    refine ⟨h.dbInv, ?_⟩
    rintro x' ⟨⟩
    exact (h.holds x hx).take hn hq
  | @ended x n id event stage hx hn hevent =>
    refine ⟨h.dbInv, ?_⟩
    rintro x' ⟨⟩
    refine (h.holds x hx).move hn (.of_bare ?_ ?_) fun _ _ => ⟨rfl, rfl⟩
    · exact ((h.holds x hx).held id .working (List.mem_of_getElem? hn)).interrupted
    · obtain ⟨-, rfl⟩ | ⟨-, rfl⟩ := hevent <;> rfl
  | @advanced x n now id stage stage' db' hx hn hworking hadvance =>
    have hheld := (h.holds x hx).held id stage (List.mem_of_getElem? hn)
    have hspec := advance_spec h.dbInv hheld hworking hadvance
    refine ⟨hspec.dbInv, ?_⟩
    rintro x' ⟨⟩
    exact (h.holds x hx).move hn (hspec.held stage' rfl).2 hspec.frame
  | @left x n now id stage db' escaped hx hn hworking hadvance =>
    have hheld := (h.holds x hx).held id stage (List.mem_of_getElem? hn)
    have hspec := advance_spec h.dbInv hheld hworking hadvance
    refine ⟨hspec.dbInv, ?_⟩
    rintro x' ⟨⟩
    exact (h.holds x hx).finish hn hspec.frame
  | @closed x hx =>
    refine ⟨h.dbInv, ?_⟩
    rintro x' ⟨⟩
    exact ⟨(h.holds x hx).nodup, (h.holds x hx).queued, (h.holds x hx).held,
      (h.holds x hx).slots⟩
  | stopped => exact ⟨h.dbInv, fun _ hx => absurd hx (by simp)⟩
  | started hx hbounds hok =>
    refine ⟨(recoverStartup_always h.dbInv).2.dbInv, ?_⟩
    rintro x' ⟨⟩
    exact holds_start _ _ _
  | startupRaised hx herror =>
    exact ⟨(recoverStartup_always h.dbInv).2.dbInv, fun _ hx => absurd hx (by simp)⟩
  | @startupStopped n now db' hx hdb =>
    refine ⟨?_, fun _ hx => absurd hx (by simp)⟩
    obtain rfl | hdb := List.mem_cons.mp hdb
    · exact h.dbInv
    · exact ((recoverStartup_always h.dbInv).1 db' hdb).dbInv

end Keeps

theorem sysInv_initial : SysInv System.initial :=
  ⟨dbInv_empty, fun _ hx => absurd hx (by simp [System.initial])⟩

/-- **The invariant holds in every reachable state.** -/
theorem sysInv_of_run {labels : List (Event × Outcome)} {s : System}
    (h : Run SystemStep System.initial labels s) : SysInv s :=
  h.invariant sysInv_initial fun _ _ _ hinv hstep => (step_cases hinv hstep).sysInv hinv

/-! ## Runs of given events -/

/-- The system after a list of events; an event that cannot happen changes nothing. -/
def System.play (s : System) : List Event → System
  | [] => s
  | event :: events =>
    match step s event with
    | some (s', _) => s'.play events
    | none => s.play events

/-- The labels of a list of events. -/
def System.labels (s : System) : List Event → List (Event × Outcome)
  | [] => []
  | event :: events =>
    match step s event with
    | some (s', o) => (event, o) :: s'.labels events
    | none => s.labels events

/-- Every event of the list can happen where it is played, and meets a condition there. -/
def System.playable (ok : System → Event → Bool) (s : System) : List Event → Bool
  | [] => true
  | event :: events =>
    ok s event &&
      match step s event with
      | some (s', _) => s'.playable ok events
      | none => false

/-- An event with an outcome is a step. -/
theorem exists_step {s : System} {e : Event} {o : Outcome}
    (h : (step s e).map Prod.snd = some o) : ∃ s', step s e = some (s', o) := by
  obtain ⟨⟨s', o'⟩, hstep, rfl⟩ := Option.map_eq_some_iff.mp h
  exact ⟨s', hstep⟩

/-- A list of events that can be played is a run. -/
theorem run_play {ok : System → Event → Bool} {events : List Event} {s : System}
    (h : s.playable ok events = true) :
    Run (restrict SystemStep fun s l => ok s l.1 = true) s (s.labels events) (s.play events) := by
  induction events generalizing s with
  | nil => exact .nil
  | cons event events ih =>
    obtain ⟨hok, h⟩ := Bool.and_eq_true_iff.mp h
    rw [System.labels, System.play]
    split at h
    · rename_i s' o hstep
      exact (Run.snoc .nil ⟨hstep, hok⟩).append (ih h)
    · cases h

end Controller
end OpenstackPlatform
