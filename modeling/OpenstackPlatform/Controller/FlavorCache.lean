import Mathlib.Algebra.Order.Ring.Rat
import Mathlib.Logic.Function.Basic
import Mathlib.Tactic.Linarith
import OpenstackPlatform.Library.Heap
import OpenstackPlatform.Library.Run
import OpenstackPlatform.Library.Table

/-!
# The flavor cache

`controller/flavor_cache.py`: caches of observations that share a pool of two workers and 32 slots.
The sections under the lock of a cache are atomic, a thread may be stopped between any two of its
steps, and the clock that the sections read never goes back.  A turn of the loop of `refresh` is a
step of its own, so that there are more orders here than under the lock.

* `State`, `Step`: the entries, the futures, the pool and the calls, and one step of one of them.
* `StoreSound`, `WorkSound`, `Sound`: what holds in every state.
* `StoreSound.begin`, `StoreSound.observed`, `StoreSound.touch`, `StoreSound.make`: the sections.
* `WorkSound.submit`, `WorkSound.lead`: the work of the pool and of the threads that lead.
-/

namespace OpenstackPlatform
namespace Controller
namespace FlavorCache

open Library

/-! ## Entries -/

/-- `_Entry`, with its cache, its key and the time when it was last observed. -/
structure Entry (γ κ ρ : Type) where
  cache : γ
  key : κ
  value : Option ρ
  result : Option ℕ
  pending : Bool
  refreshAt : ℚ
  expires : ℚ
  retryAt : ℚ
  failures : ℕ
  /-- when the last observation ended; the source keeps no such time -/
  ended : Option ℚ

/-- A future, with its entry.  It has no outcome before it is done; an exception has no value. -/
structure Promise (ρ : Type) where
  entry : ℕ
  outcome : Option (Option ρ)

/-- `_observe(entry, result)` -/
structure Task where
  entry : ℕ
  future : ℕ
  deriving DecidableEq

/-- Where a call of `get` is. -/
inductive Stage where
  | leading (task : Task)
  | awaiting (future : ℕ) (since : ℚ)

structure Call (γ κ : Type) where
  cache : γ
  key : κ
  stage : Stage

/-- How a call ends. -/
inductive Answer (ρ : Type) where
  | value (v : ρ)
  /-- the exception of the observation -/
  | failed
  /-- `flavor observation capacity exhausted` -/
  | exhausted
  /-- `assert result is not None` -/
  | assertion

variable {γ κ ρ ι : Type}

/-- `_Entry(observe)` -/
def Entry.fresh (g : γ) (key : κ) : Entry γ κ ρ := ⟨g, key, none, none, false, 0, 0, 0, 0, none⟩

/-- `entry.pending or self.clock() < max(entry.refresh_at, entry.retry_at)` -/
def Entry.rests (x : Entry γ κ ρ) (now : ℚ) : Bool :=
  x.pending || decide (now < max x.refreshAt x.retryAt)

/-- `min(300, 5 * 2 ** min(entry.failures - 1, 6))` -/
def backoff (failures : ℕ) : ℚ := min 300 (5 * 2 ^ min (failures - 1) 6)

/-- The section of `_observe` after an exception or a value. -/
def Entry.observed (x : Entry γ κ ρ) (outcome : Option ρ) (now : ℚ) : Entry γ κ ρ :=
  match outcome with
  | none =>
    { x with
      failures := x.failures + 1
      retryAt := now + backoff (x.failures + 1)
      pending := false
      ended := some now }
  | some v =>
    { x with
      value := some v
      expires := now + 600
      refreshAt := now + 600 - (600 - 540)
      retryAt := 0
      failures := 0
      pending := false
      ended := some now }

/-- How long an entry rests after an observation: until its value is refreshed, or it is tried
again. -/
def Entry.pause (x : Entry γ κ ρ) : ℚ := if x.failures = 0 then 540 else backoff x.failures

/-- The entry after `_start`. -/
def Entry.begun (x : Entry γ κ ρ) (f : ℕ) : Entry γ κ ρ :=
  { x with result := some f, pending := true }

theorem Entry.idle_of_due {x : Entry γ κ ρ} {now : ℚ} (h : x.rests now = false) :
    x.pending = false := by
  rw [Entry.rests, Bool.or_eq_false_iff] at h
  exact h.1

theorem Entry.observed_pending (x : Entry γ κ ρ) (outcome : Option ρ) (now : ℚ) :
    (x.observed outcome now).pending = false := by
  cases outcome <;> rfl

theorem Entry.observed_fields (x : Entry γ κ ρ) (outcome : Option ρ) (now : ℚ) :
    (x.observed outcome now).cache = x.cache ∧ (x.observed outcome now).key = x.key ∧
      (x.observed outcome now).result = x.result := by
  cases outcome <;> exact ⟨rfl, rfl, rfl⟩

theorem Entry.observed_ended (x : Entry γ κ ρ) (outcome : Option ρ) (now : ℚ) :
    (x.observed outcome now).ended = some now := by
  cases outcome <;> rfl

/-- After an observation an entry rests for its pause. -/
theorem Entry.observed_pause (x : Entry γ κ ρ) (outcome : Option ρ) (now : ℚ) :
    now + (x.observed outcome now).pause ≤
      max (x.observed outcome now).refreshAt (x.observed outcome now).retryAt := by
  cases outcome with
  | none =>
    refine le_max_of_le_right ?_
    rw [Entry.observed, Entry.pause, if_neg (Nat.succ_ne_zero _)]
  | some v =>
    refine le_max_of_le_left ?_
    rw [Entry.observed, Entry.pause, if_pos rfl]
    linarith

/-! ## The caches and their pool -/

/-- The entries and the futures that were made, the caches with their newest entry first, the pool
and the calls of the threads. -/
structure State (γ κ ρ ι : Type) where
  clock : ℚ
  heap : List (Entry γ κ ρ)
  promises : List (Promise ρ)
  entries : γ → Table κ ℕ
  queue : List Task
  running : List Task
  /-- tasks that are over and did not release their slot yet -/
  releasing : ℕ
  cancelled : List Task
  slots : ℕ
  closed : Bool
  thread : ι → Option (Call γ κ)

/-- Nothing was called yet. -/
def State.initial (clock : ℚ) : State γ κ ρ ι where
  clock := clock
  heap := []
  promises := []
  entries _ := ∅
  queue := []
  running := []
  releasing := 0
  cancelled := []
  slots := 32
  closed := false
  thread _ := none

/-- A step of a thread, of a worker of the pool or of `close`. -/
inductive Label (γ κ ρ ι : Type) where
  /-- the section of `get`; it has an answer unless the call leads or waits -/
  | get (i : ι) (g : γ) (key : κ) (now : ℚ) (answer : Option (Answer ρ))
  | prewarm (g : γ) (key : κ) (now : ℚ)
  /-- a turn of the loop of `refresh` -/
  | refresh (g : γ) (key : κ) (now : ℚ)
  /-- a worker takes a task -/
  | take
  /-- `_observe` of a worker -/
  | ran (g : γ) (key : κ) (outcome : Option ρ) (now : ℚ)
  | release
  /-- `_observe` of the thread that called `get` -/
  | led (i : ι) (g : γ) (key : κ) (outcome : Option ρ) (now : ℚ)
  /-- `result.result(timeout=20)` returns or raises -/
  | finish (i : ι) (g : γ) (key : κ) (answer : Answer ρ)
  | expire (i : ι) (now : ℚ)
  | close
  /-- `shutdown(cancel_futures=True)` cancels a task -/
  | cancel

/-- The clock is read. -/
def State.tick (s : State γ κ ρ ι) (now : ℚ) : State γ κ ρ ι := { s with clock := now }

theorem State.tick_thread (s : State γ κ ρ ι) (now : ℚ) : (s.tick now).thread = s.thread := rfl

section Threads

variable [DecidableEq ι]

/-- The call of the thread `i` is at another stage, or over. -/
def State.goto (s : State γ κ ρ ι) (i : ι) (c : Option (Call γ κ)) : State γ κ ρ ι :=
  { s with thread := Function.update s.thread i c }

theorem State.goto_self (s : State γ κ ρ ι) (i : ι) (c : Option (Call γ κ)) :
    (s.goto i c).thread i = c :=
  Function.update_self ..

theorem State.goto_of_ne {s : State γ κ ρ ι} {i j : ι} {c : Option (Call γ κ)} (h : j ≠ i) :
    (s.goto i c).thread j = s.thread j :=
  Function.update_of_ne h ..

end Threads

section Steps

variable [DecidableEq γ] [DecidableEq κ] [DecidableEq ι]

def State.isPending (s : State γ κ ρ ι) (e : ℕ) : Bool := (s.heap[e]?).any (·.pending)

/-- The oldest entry that is not pending. -/
def State.oldest (s : State γ κ ρ ι) (g : γ) : Option κ :=
  ((s.entries g).entries.reverse.find? fun r => !s.isPending r.2).map (·.1)

/-- A new entry in a table. -/
def State.make (s : State γ κ ρ ι) (g : γ) (key : κ) (t : Table κ ℕ) : State γ κ ρ ι :=
  { s with
    heap := s.heap ++ [Entry.fresh g key]
    entries := Function.update s.entries g (t.insert key s.heap.length) }

/-- `_entry`, without an entry where it raises. -/
def State.entry (capacity : γ → ℕ) (s : State γ κ ρ ι) (g : γ) (key : κ) :
    Option (State γ κ ρ ι × ℕ) :=
  match (s.entries g).lookup key with
  | some e =>
    some ({ s with entries := Function.update s.entries g ((s.entries g).insert key e) }, e)
  | none =>
    if capacity g ≤ (s.entries g).keys.length then
      (s.oldest g).map fun k => (s.make g key ((s.entries g).erase k), s.heap.length)
    else some (s.make g key (s.entries g), s.heap.length)

/-- `_start` of an entry that does not rest, up to `submit`. -/
def State.begin (s : State γ κ ρ ι) (e : ℕ) (x : Entry γ κ ρ) : State γ κ ρ ι :=
  { s with
    heap := s.heap.set e (x.begun s.promises.length)
    promises := s.promises ++ [⟨e, none⟩] }

/-- `_start(entry, background=True)` and `submit`: an entry whose task is refused is as before. -/
def State.startBehind (s : State γ κ ρ ι) (e : ℕ) (x : Entry γ κ ρ) (now : ℚ) : State γ κ ρ ι :=
  if x.rests now = true ∨ s.closed = true ∨ s.slots = 0 then s
  else
    { s.begin e x with
      queue := s.queue ++ [⟨e, s.promises.length⟩]
      slots := s.slots - 1 }

/-- The section of `_observe`. -/
def State.observed (s : State γ κ ρ ι) (t : Task) (x : Entry γ κ ρ) (outcome : Option ρ) (now : ℚ) :
    State γ κ ρ ι :=
  { s with
    clock := now
    heap := s.heap.set t.entry (x.observed outcome now)
    promises := s.promises.modify t.future fun p => { p with outcome := some outcome } }

/-- One step. -/
inductive Step (capacity : γ → ℕ) : State γ κ ρ ι → Label γ κ ρ ι → State γ κ ρ ι → Prop where
  | exhausted {s : State γ κ ρ ι} {i : ι} {g : γ} {key : κ} {now : ℚ} (free : s.thread i = none)
      (clock : s.clock ≤ now) (full : s.entry capacity g key = none) :
      Step capacity s (.get i g key now (some .exhausted)) (s.tick now)
  | hit {s s₁ : State γ κ ρ ι} {i : ι} {g : γ} {key : κ} {now : ℚ} {e : ℕ} {x : Entry γ κ ρ} {v : ρ}
      (free : s.thread i = none) (clock : s.clock ≤ now)
      (entry : s.entry capacity g key = some (s₁, e)) (object : s₁.heap[e]? = some x)
      (value : x.value = some v) :
      Step capacity s (.get i g key now (some (.value v))) ((s₁.startBehind e x now).tick now)
  | lead {s s₁ : State γ κ ρ ι} {i : ι} {g : γ} {key : κ} {now : ℚ} {e : ℕ} {x : Entry γ κ ρ}
      (free : s.thread i = none) (clock : s.clock ≤ now)
      (entry : s.entry capacity g key = some (s₁, e)) (object : s₁.heap[e]? = some x)
      (value : x.value = none) (due : x.rests now = false) :
      Step capacity s (.get i g key now none) (((s₁.begin e x).goto i
        (some ⟨g, key, .leading ⟨e, s₁.promises.length⟩⟩)).tick now)
  | join {s s₁ : State γ κ ρ ι} {i : ι} {g : γ} {key : κ} {now : ℚ} {e f : ℕ} {x : Entry γ κ ρ}
      (free : s.thread i = none) (clock : s.clock ≤ now)
      (entry : s.entry capacity g key = some (s₁, e)) (object : s₁.heap[e]? = some x)
      (value : x.value = none) (rests : x.rests now = true) (result : x.result = some f) :
      Step capacity s (.get i g key now none)
        ((s₁.goto i (some ⟨g, key, .awaiting f now⟩)).tick now)
  | assertion {s s₁ : State γ κ ρ ι} {i : ι} {g : γ} {key : κ} {now : ℚ} {e : ℕ} {x : Entry γ κ ρ}
      (free : s.thread i = none) (clock : s.clock ≤ now)
      (entry : s.entry capacity g key = some (s₁, e)) (object : s₁.heap[e]? = some x)
      (value : x.value = none) (rests : x.rests now = true) (result : x.result = none) :
      Step capacity s (.get i g key now (some .assertion)) (s₁.tick now)
  | prewarm {s s₁ : State γ κ ρ ι} {g : γ} {key : κ} {now : ℚ} {e : ℕ} {x : Entry γ κ ρ}
      (clock : s.clock ≤ now) (entry : s.entry capacity g key = some (s₁, e))
      (object : s₁.heap[e]? = some x) :
      Step capacity s (.prewarm g key now) ((s₁.startBehind e x now).tick now)
  | refresh {s : State γ κ ρ ι} {g : γ} {key : κ} {now : ℚ} {e : ℕ} {x : Entry γ κ ρ}
      (clock : s.clock ≤ now) (listed : (s.entries g).lookup key = some e)
      (object : s.heap[e]? = some x) :
      Step capacity s (.refresh g key now) ((s.startBehind e x now).tick now)
  | take {s : State γ κ ρ ι} {t : Task} {rest : List Task} (queue : s.queue = t :: rest)
      (idle : s.running.length + s.releasing < 2) :
      Step capacity s .take { s with queue := rest, running := s.running ++ [t] }
  | ran {s : State γ κ ρ ι} {t : Task} {x : Entry γ κ ρ} {outcome : Option ρ} {now : ℚ}
      (running : t ∈ s.running) (object : s.heap[t.entry]? = some x) (clock : s.clock ≤ now) :
      Step capacity s (.ran x.cache x.key outcome now)
        { s.observed t x outcome now with
          running := s.running.erase t
          releasing := s.releasing + 1 }
  | release {s : State γ κ ρ ι} {n : ℕ} (releasing : s.releasing = n + 1) :
      Step capacity s .release { s with releasing := n, slots := s.slots + 1 }
  | led {s : State γ κ ρ ι} {i : ι} {g : γ} {key : κ} {t : Task} {x : Entry γ κ ρ}
      {outcome : Option ρ} {now : ℚ} (stage : s.thread i = some ⟨g, key, .leading t⟩)
      (object : s.heap[t.entry]? = some x) (clock : s.clock ≤ now) :
      Step capacity s (.led i x.cache x.key outcome now)
        ((s.observed t x outcome now).goto i (some ⟨g, key, .awaiting t.future now⟩))
  | finish {s : State γ κ ρ ι} {i : ι} {g : γ} {key : κ} {f : ℕ} {since : ℚ} {p : Promise ρ}
      {outcome : Option ρ} (stage : s.thread i = some ⟨g, key, .awaiting f since⟩)
      (object : s.promises[f]? = some p) (done : p.outcome = some outcome) :
      Step capacity s (.finish i g key (outcome.elim .failed .value)) (s.goto i none)
  | expire {s : State γ κ ρ ι} {i : ι} {g : γ} {key : κ} {f : ℕ} {since now : ℚ} {p : Promise ρ}
      (stage : s.thread i = some ⟨g, key, .awaiting f since⟩) (object : s.promises[f]? = some p)
      (undone : p.outcome = none) (clock : s.clock ≤ now) (late : since + 20 ≤ now) :
      Step capacity s (.expire i now) ((s.goto i none).tick now)
  | close {s : State γ κ ρ ι} : Step capacity s .close { s with closed := true }
  | cancel {s : State γ κ ρ ι} {t : Task} {rest : List Task} (closed : s.closed = true)
      (queue : s.queue = t :: rest) :
      Step capacity s .cancel
        { s with queue := rest, cancelled := s.cancelled ++ [t], slots := s.slots + 1 }

end Steps

/-! ## What holds in every state -/

section Invariant

variable [DecidableEq κ]

/-- The entries, the futures and the caches. -/
structure StoreSound (capacity : γ → ℕ) (clock : ℚ) (heap : List (Entry γ κ ρ))
    (promises : List (Promise ρ)) (entries : γ → Table κ ℕ) : Prop where
  bounded : ∀ g, (entries g).keys.length ≤ capacity g
  listed : ∀ g key e, (entries g).lookup key = some e →
    ∃ x : Entry γ κ ρ, heap[e]? = some x ∧ x.cache = g ∧ x.key = key
  retained : ∀ (e : ℕ) (x : Entry γ κ ρ), heap[e]? = some x → x.pending = true →
    (entries x.cache).lookup x.key = some e
  result : ∀ (e : ℕ) (x : Entry γ κ ρ) f, heap[e]? = some x → x.result = some f →
    ∃ p : Promise ρ, promises[f]? = some p ∧ p.entry = e ∧ p.outcome.isNone = x.pending
  owned : ∀ (f : ℕ) (p : Promise ρ), promises[f]? = some p →
    ∃ x : Entry γ κ ρ, heap[p.entry]? = some x ∧
      (p.outcome = none → x.pending = true ∧ x.result = some f)
  fresh : ∀ (e : ℕ) (x : Entry γ κ ρ), heap[e]? = some x → x.result = none →
    x.pending = false ∧ max x.refreshAt x.retryAt = 0
  ended : ∀ (e : ℕ) (x : Entry γ κ ρ) t, heap[e]? = some x → x.ended = some t →
    t ≤ clock ∧ t + x.pause ≤ max x.refreshAt x.retryAt
  pending : ∀ (e : ℕ) (x : Entry γ κ ρ), heap[e]? = some x → x.pending = true →
    ∃ f, x.result = some f

/-- The entry of a task waits for its future. -/
def Works (heap : List (Entry γ κ ρ)) (t : Task) : Prop :=
  ∃ x : Entry γ κ ρ, heap[t.entry]? = some x ∧ x.pending = true ∧ x.result = some t.future

/-- The tasks and the threads that lead: one of them works for every entry that is pending. -/
structure WorkSound (heap : List (Entry γ κ ρ)) (tasks : List Task) (leads : ι → Task → Prop) :
    Prop where
  work : ∀ t, t ∈ tasks ∨ (∃ i, leads i t) ↔ Works heap t
  nodup : tasks.Nodup
  alone : ∀ i j t, leads i t → leads j t → i = j
  apart : ∀ i t, leads i t → t ∉ tasks

/-- A call and the entry of its future. -/
structure CallHolds (heap : List (Entry γ κ ρ)) (promises : List (Promise ρ)) (c : Call γ κ) :
    Prop where
  leading : ∀ t, c.stage = .leading t →
    ∃ x : Entry γ κ ρ, heap[t.entry]? = some x ∧ x.cache = c.cache ∧ x.key = c.key
  awaiting : ∀ f since, c.stage = .awaiting f since →
    ∃ (p : Promise ρ) (x : Entry γ κ ρ), promises[f]? = some p ∧ heap[p.entry]? = some x ∧
      x.cache = c.cache ∧ x.key = c.key

/-- The tasks that were accepted and are not over. -/
def State.tasks (s : State γ κ ρ ι) : List Task := s.running ++ (s.cancelled ++ s.queue)

/-- The thread `i` leads. -/
def State.leads (s : State γ κ ρ ι) (i : ι) (t : Task) : Prop :=
  ∃ g key, s.thread i = some ⟨g, key, .leading t⟩

/-- What holds in every state. -/
structure Sound (capacity : γ → ℕ) (s : State γ κ ρ ι) : Prop where
  clock : 0 ≤ s.clock
  store : StoreSound capacity s.clock s.heap s.promises s.entries
  work : WorkSound s.heap s.tasks s.leads
  calls : ∀ i c, s.thread i = some c → CallHolds s.heap s.promises c
  slots : s.slots + s.queue.length + s.running.length + s.releasing = 32
  workers : s.running.length + s.releasing ≤ 2
  stopped : s.cancelled = [] ∨ s.closed = true

end Invariant

/-! ## The store -/

section Store

variable [DecidableEq κ] {capacity : γ → ℕ} {clock now : ℚ} {heap : List (Entry γ κ ρ)}
  {promises : List (Promise ρ)} {entries : γ → Table κ ℕ}

theorem length_keys_insert_of_lookup {t : Table κ ℕ} {key : κ} {e : ℕ} (h : t.lookup key = some e)
    (e' : ℕ) : (t.insert key e').keys.length = t.keys.length := by
  have hmem : key ∈ t.keys := AList.lookup_isSome.mp (by rw [h]; rfl)
  have hpos := List.length_pos_of_mem hmem
  rw [AList.keys_insert, List.length_cons, List.length_erase_of_mem hmem]
  omega

theorem length_keys_insert_le (t : Table κ ℕ) (key : κ) (e : ℕ) :
    (t.insert key e).keys.length ≤ t.keys.length + 1 := by
  rw [AList.keys_insert, List.length_cons]
  exact Nat.succ_le_succ List.length_erase_le

theorem length_keys_erase_of_lookup {t : Table κ ℕ} {key : κ} {e : ℕ} (h : t.lookup key = some e) :
    (t.erase key).keys.length + 1 = t.keys.length := by
  have hmem : key ∈ t.keys := AList.lookup_isSome.mp (by rw [h]; rfl)
  have hpos := List.length_pos_of_mem hmem
  rw [AList.keys_erase, List.length_erase_of_mem hmem]
  omega

theorem StoreSound.mono (h : StoreSound capacity clock heap promises entries)
    (hclock : clock ≤ now) : StoreSound capacity now heap promises entries :=
  { h with ended := fun e x t hx ht =>
      ⟨(h.ended e x t hx ht).1.trans hclock, (h.ended e x t hx ht).2⟩ }

/-- An entry that is listed and does not rest is started. -/
theorem StoreSound.begin (h : StoreSound capacity clock heap promises entries)
    (hclock : clock ≤ now) {e : ℕ} {x : Entry γ κ ρ} (hx : heap[e]? = some x)
    (hlisted : (entries x.cache).lookup x.key = some e) (hdue : x.rests now = false) :
    StoreSound capacity now (heap.set e (x.begun promises.length)) (promises ++ [⟨e, none⟩])
      entries := by
  have hidle : x.pending = false := by
    rw [Entry.rests, Bool.or_eq_false_iff] at hdue
    exact hdue.1
  constructor
  · exact h.bounded
  · intro g key e' he'
    obtain ⟨y, hy, hsame⟩ := h.listed g key e' he'
    by_cases heq : e' = e
    · subst heq
      cases hx.symm.trans hy
      exact ⟨_, getElem?_set_same hx, hsame⟩
    · exact ⟨y, (getElem?_set_other heq).trans hy, hsame⟩
  · intro e' y hy hy'
    obtain ⟨rfl, rfl⟩ | ⟨-, hy⟩ := getElem?_of_set hy
    · exact hlisted
    · exact h.retained e' y hy hy'
  · intro e' y f hy hf
    obtain ⟨rfl, rfl⟩ | ⟨-, hy⟩ := getElem?_of_set hy
    · cases hf
      exact ⟨_, List.getElem?_concat_length, rfl, rfl⟩
    · obtain ⟨p, hp, hrest⟩ := h.result e' y f hy hf
      exact ⟨p, getElem?_append_of_some hp, hrest⟩
  · intro f p hp
    obtain ⟨rfl, rfl⟩ | ⟨-, hp⟩ := getElem?_of_append hp
    · exact ⟨_, getElem?_set_same hx, fun _ => ⟨rfl, rfl⟩⟩
    · obtain ⟨y, hy, hundone⟩ := h.owned f p hp
      by_cases heq : p.entry = e
      · rw [heq] at hy ⊢
        cases hx.symm.trans hy
        refine ⟨_, getElem?_set_same hx, fun hnone => ?_⟩
        rw [(hundone hnone).1] at hidle
        cases hidle
      · exact ⟨y, (getElem?_set_other heq).trans hy, hundone⟩
  · intro e' y hy hnone
    obtain ⟨rfl, rfl⟩ | ⟨-, hy⟩ := getElem?_of_set hy
    · cases hnone
    · exact h.fresh e' y hy hnone
  · intro e' y t hy ht
    obtain ⟨rfl, rfl⟩ | ⟨-, hy⟩ := getElem?_of_set hy
    · exact ⟨(h.ended e' x t hx ht).1.trans hclock, (h.ended e' x t hx ht).2⟩
    · exact ⟨(h.ended e' y t hy ht).1.trans hclock, (h.ended e' y t hy ht).2⟩
  · intro e' y hy hpending
    obtain ⟨rfl, rfl⟩ | ⟨-, hy⟩ := getElem?_of_set hy
    · exact ⟨_, rfl⟩
    · exact h.pending e' y hy hpending

/-- The observation of a task ends. -/
theorem StoreSound.observed (h : StoreSound capacity clock heap promises entries)
    (hclock : clock ≤ now) {t : Task} {x : Entry γ κ ρ} {outcome : Option ρ}
    (hx : heap[t.entry]? = some x) (hresult : x.result = some t.future) :
    StoreSound capacity now (heap.set t.entry (x.observed outcome now))
      (promises.modify t.future fun p => { p with outcome := some outcome }) entries := by
  obtain ⟨hcache, hkey, hsame⟩ := x.observed_fields outcome now
  obtain ⟨p₀, hp₀, hentry₀, -⟩ := h.result _ _ _ hx hresult
  constructor
  · exact h.bounded
  · intro g key e he
    obtain ⟨y, hy, hfields⟩ := h.listed g key e he
    by_cases heq : e = t.entry
    · subst heq
      cases hx.symm.trans hy
      exact ⟨_, getElem?_set_same hx, hcache.trans hfields.1, hkey.trans hfields.2⟩
    · exact ⟨y, (getElem?_set_other heq).trans hy, hfields⟩
  · intro e y hy hy'
    obtain ⟨rfl, rfl⟩ | ⟨-, hy⟩ := getElem?_of_set hy
    · rw [x.observed_pending] at hy'
      cases hy'
    · exact h.retained e y hy hy'
  · intro e y f hy hf
    obtain ⟨rfl, rfl⟩ | ⟨hne, hy⟩ := getElem?_of_set hy
    · obtain rfl : t.future = f := Option.some.inj (hresult.symm.trans (hsame.symm.trans hf))
      refine ⟨{ p₀ with outcome := some outcome }, ?_, hentry₀, ?_⟩
      · rw [List.getElem?_modify_eq, hp₀]
        rfl
      · rw [x.observed_pending]
        rfl
    · obtain ⟨p, hp, hentry, hdone⟩ := h.result e y f hy hf
      have hother : t.future ≠ f := by
        rintro rfl
        cases hp₀.symm.trans hp
        exact hne (hentry.symm.trans hentry₀)
      refine ⟨p, ?_, hentry, hdone⟩
      rw [List.getElem?_modify_ne _ _ hother, hp]
  · intro f p hp
    rw [List.getElem?_modify] at hp
    obtain ⟨p', hp', hmodified⟩ := Option.map_eq_some_iff.mp hp
    obtain ⟨y, hy, hundone⟩ := h.owned f p' hp'
    have hentry : p.entry = p'.entry := by
      rw [← hmodified]
      split <;> rfl
    by_cases heq : p'.entry = t.entry
    · rw [hentry, heq]
      refine ⟨_, getElem?_set_same hx, fun hnone => ?_⟩
      rw [heq] at hy
      cases hx.symm.trans hy
      split at hmodified
      · subst hmodified
        cases hnone
      · rename_i hne
        subst hmodified
        exact absurd (Option.some.inj (hresult.symm.trans (hundone hnone).2)) hne
    · rw [hentry]
      refine ⟨y, (getElem?_set_other heq).trans hy, fun hnone => hundone ?_⟩
      split at hmodified
      · subst hmodified
        cases hnone
      · subst hmodified
        exact hnone
  · intro e y hy hnone
    obtain ⟨rfl, rfl⟩ | ⟨-, hy⟩ := getElem?_of_set hy
    · rw [hsame, hresult] at hnone
      cases hnone
    · exact h.fresh e y hy hnone
  · intro e y s hy hs
    obtain ⟨rfl, rfl⟩ | ⟨-, hy⟩ := getElem?_of_set hy
    · cases (x.observed_ended outcome now).symm.trans hs
      exact ⟨le_rfl, x.observed_pause outcome now⟩
    · exact ⟨(h.ended e y s hy hs).1.trans hclock, (h.ended e y s hy hs).2⟩
  · intro e y hy hy'
    obtain ⟨rfl, rfl⟩ | ⟨-, hy⟩ := getElem?_of_set hy
    · rw [x.observed_pending] at hy'
      cases hy'
    · exact h.pending e y hy hy'

variable [DecidableEq γ]

/-- The entry of a key becomes the newest. -/
theorem StoreSound.touch (h : StoreSound capacity clock heap promises entries) {g : γ} {key : κ}
    {e : ℕ} (hkey : (entries g).lookup key = some e) :
    StoreSound capacity clock heap promises
      (Function.update entries g ((entries g).insert key e)) := by
  have hlookup : ∀ g' key', (Function.update entries g ((entries g).insert key e) g').lookup key' =
      (entries g').lookup key' := by
    intro g' key'
    by_cases hg : g' = g
    · subst hg
      rw [Function.update_self, Table.lookup_insert_ite]
      split
      · rename_i heq
        rw [heq, hkey]
      · rfl
    · rw [Function.update_of_ne hg]
  refine { h with bounded := fun g' => ?_, listed := fun g' key' e' h' => ?_, retained := ?_ }
  · by_cases hg : g' = g
    · subst hg
      rw [Function.update_self, length_keys_insert_of_lookup hkey]
      exact h.bounded g'
    · rw [Function.update_of_ne hg]
      exact h.bounded g'
  · rw [hlookup] at h'
    exact h.listed g' key' e' h'
  · intro e' x hx hpending
    rw [hlookup]
    exact h.retained e' x hx hpending

/-- A new entry, in a table that lost only entries that are not pending. -/
theorem StoreSound.make (h : StoreSound capacity clock heap promises entries) {g : γ} {key : κ}
    {t : Table κ ℕ} (hkey : (entries g).lookup key = none) (hlength : t.keys.length < capacity g)
    (hsub : ∀ k e, t.lookup k = some e → (entries g).lookup k = some e)
    (hkeep : ∀ k (e : ℕ) (x : Entry γ κ ρ), (entries g).lookup k = some e → heap[e]? = some x →
      x.pending = true → t.lookup k = some e) :
    StoreSound capacity clock (heap ++ [Entry.fresh g key]) promises
      (Function.update entries g (t.insert key heap.length)) := by
  have hold : ∀ {e x}, (heap ++ [Entry.fresh g key])[e]? = some x →
      e = heap.length ∧ x = Entry.fresh g key ∨ heap[e]? = some x := by
    intro e x hx
    obtain hnew | ⟨-, hx⟩ := getElem?_of_append hx
    · exact .inl hnew
    · exact .inr hx
  constructor
  · intro g'
    by_cases hg : g' = g
    · subst hg
      rw [Function.update_self]
      exact (length_keys_insert_le t key _).trans hlength
    · rw [Function.update_of_ne hg]
      exact h.bounded g'
  · intro g' key' e he
    by_cases hg : g' = g
    · subst hg
      rw [Function.update_self, Table.lookup_insert_ite] at he
      split at he
      · rename_i heq
        cases he
        exact ⟨_, List.getElem?_concat_length, rfl, heq.symm⟩
      · obtain ⟨x, hx, hsame⟩ := h.listed g' key' e (hsub _ _ he)
        exact ⟨x, getElem?_append_of_some hx, hsame⟩
    · rw [Function.update_of_ne hg] at he
      obtain ⟨x, hx, hsame⟩ := h.listed g' key' e he
      exact ⟨x, getElem?_append_of_some hx, hsame⟩
  · intro e x hx hpending
    obtain ⟨-, rfl⟩ | hx' := hold hx
    · cases hpending
    · have hlookup := h.retained e x hx' hpending
      by_cases hg : x.cache = g
      · subst hg
        rw [Function.update_self, Table.lookup_insert_ite, if_neg]
        · exact hkeep _ _ x hlookup hx' hpending
        · intro heq
          rw [heq, hkey] at hlookup
          cases hlookup
      · rw [Function.update_of_ne hg]
        exact hlookup
  · intro e x f hx hf
    obtain ⟨-, rfl⟩ | hx := hold hx
    · cases hf
    · exact h.result e x f hx hf
  · intro f p hp
    obtain ⟨x, hx, hundone⟩ := h.owned f p hp
    exact ⟨x, getElem?_append_of_some hx, hundone⟩
  · intro e x hx hnone
    obtain ⟨-, rfl⟩ | hx := hold hx
    · exact ⟨rfl, max_self 0⟩
    · exact h.fresh e x hx hnone
  · intro e x t hx ht
    obtain ⟨-, rfl⟩ | hx := hold hx
    · cases ht
    · exact h.ended e x t hx ht
  · intro e x hx hpending
    obtain ⟨-, rfl⟩ | hx := hold hx
    · cases hpending
    · exact h.pending e x hx hpending

end Store

/-! ## Tasks and calls -/

section Work

variable {heap : List (Entry γ κ ρ)} {promises : List (Promise ρ)} {tasks tasks' : List Task}
  {leads : ι → Task → Prop}

theorem works_made (g : γ) (key : κ) (t : Task) :
    Works (heap ++ [Entry.fresh g key]) t ↔ Works heap t := by
  constructor
  · rintro ⟨x, hx, hpending, hresult⟩
    obtain ⟨-, rfl⟩ | ⟨-, hx⟩ := getElem?_of_append hx
    · cases hpending
    · exact ⟨x, hx, hpending, hresult⟩
  · rintro ⟨x, hx, hrest⟩
    exact ⟨x, getElem?_append_of_some hx, hrest⟩

theorem works_begin {e n : ℕ} {x : Entry γ κ ρ} (hx : heap[e]? = some x)
    (hidle : x.pending = false) (t : Task) :
    Works (heap.set e (x.begun n)) t ↔ t = ⟨e, n⟩ ∨ Works heap t := by
  constructor
  · rintro ⟨y, hy, hpending, hresult⟩
    obtain ⟨he, rfl⟩ | ⟨-, hy⟩ := getElem?_of_set hy
    · left
      obtain ⟨e', f⟩ := t
      obtain rfl : e' = e := he
      obtain rfl : n = f := Option.some.inj hresult
      rfl
    · exact .inr ⟨y, hy, hpending, hresult⟩
  · rintro (rfl | ⟨y, hy, hpending, hresult⟩)
    · exact ⟨_, getElem?_set_same hx, rfl, rfl⟩
    · refine ⟨y, (getElem?_set_other ?_).trans hy, hpending, hresult⟩
      rintro rfl
      cases hx.symm.trans hy
      rw [hpending] at hidle
      cases hidle

theorem works_observed {t : Task} (ht : Works heap t) {y : Entry γ κ ρ} (hidle : y.pending = false)
    (t' : Task) : Works (heap.set t.entry y) t' ↔ Works heap t' ∧ t' ≠ t := by
  obtain ⟨x, hx, -, hfuture⟩ := ht
  constructor
  · rintro ⟨z, hz, hpending, hresult⟩
    obtain ⟨-, rfl⟩ | ⟨hne, hz⟩ := getElem?_of_set hz
    · rw [hpending] at hidle
      cases hidle
    · exact ⟨⟨z, hz, hpending, hresult⟩, fun heq => hne (by rw [heq])⟩
  · rintro ⟨⟨z, hz, hpending, hresult⟩, hne⟩
    refine ⟨z, (getElem?_set_other fun he => hne ?_).trans hz, hpending, hresult⟩
    rw [he] at hz
    cases hx.symm.trans hz
    obtain ⟨e, f⟩ := t
    obtain ⟨e', f'⟩ := t'
    obtain rfl : e' = e := he
    obtain rfl : f = f' := Option.some.inj (hfuture.symm.trans hresult)
    rfl

theorem WorkSound.perm (h : WorkSound heap tasks leads) (hperm : tasks.Perm tasks') :
    WorkSound heap tasks' leads where
  work t := by rw [← hperm.mem_iff, h.work]
  nodup := hperm.nodup_iff.mp h.nodup
  alone := h.alone
  apart i t ht hm := h.apart i t ht (hperm.mem_iff.mpr hm)

/-- A task is accepted. -/
theorem WorkSound.submit (h : WorkSound heap tasks leads) {e n : ℕ} {x : Entry γ κ ρ}
    (hx : heap[e]? = some x) (hidle : x.pending = false) :
    WorkSound (heap.set e (x.begun n)) (⟨e, n⟩ :: tasks) leads := by
  have hnew : ¬Works heap ⟨e, n⟩ := by
    rintro ⟨y, hy, hpending, -⟩
    cases hx.symm.trans hy
    rw [hpending] at hidle
    cases hidle
  refine ⟨fun t => ?_, List.nodup_cons.mpr ⟨fun hm => hnew ((h.work _).mp (.inl hm)), h.nodup⟩,
    h.alone, fun i t ht hm => ?_⟩
  · rw [works_begin hx hidle, List.mem_cons, or_assoc, h.work]
  · obtain rfl | hm := List.mem_cons.mp hm
    · exact hnew ((h.work _).mp (.inr ⟨i, ht⟩))
    · exact h.apart i t ht hm

/-- A thread leads. -/
theorem WorkSound.lead (h : WorkSound heap tasks leads) {e n : ℕ} {x : Entry γ κ ρ}
    (hx : heap[e]? = some x) (hidle : x.pending = false) {leads' : ι → Task → Prop} {i : ι}
    (hleads : ∀ j t, leads' j t ↔ leads j t ∨ j = i ∧ t = ⟨e, n⟩) :
    WorkSound (heap.set e (x.begun n)) tasks leads' := by
  have hnew : ¬Works heap ⟨e, n⟩ := by
    rintro ⟨y, hy, hpending, -⟩
    cases hx.symm.trans hy
    rw [hpending] at hidle
    cases hidle
  refine ⟨fun t => ?_, h.nodup, fun j k t hj hk => ?_, fun j t hj hm => ?_⟩
  · rw [works_begin hx hidle, ← h.work]
    simp only [hleads, exists_or, exists_eq_left]
    tauto
  · obtain hj | ⟨rfl, rfl⟩ := (hleads j t).mp hj
    · obtain hk | ⟨-, rfl⟩ := (hleads k t).mp hk
      · exact h.alone j k t hj hk
      · exact absurd ((h.work _).mp (.inr ⟨j, hj⟩)) hnew
    · obtain hk | ⟨rfl, -⟩ := (hleads k _).mp hk
      · exact absurd ((h.work _).mp (.inr ⟨k, hk⟩)) hnew
      · rfl
  · obtain hj | ⟨-, rfl⟩ := (hleads j t).mp hj
    · exact h.apart j t hj hm
    · exact hnew ((h.work _).mp (.inl hm))

/-- A task of the pool is over. -/
theorem WorkSound.complete (h : WorkSound heap tasks leads) {t : Task} {y : Entry γ κ ρ}
    (hidle : y.pending = false) (hperm : tasks.Perm (t :: tasks')) :
    WorkSound (heap.set t.entry y) tasks' leads := by
  have hcons := h.perm hperm
  have ht : Works heap t := (hcons.work t).mp (.inl List.mem_cons_self)
  obtain ⟨hnotMem, hnodup⟩ := List.nodup_cons.mp hcons.nodup
  refine ⟨fun t' => ?_, hnodup, h.alone, fun i t' ht' hm => ?_⟩
  · rw [works_observed ht hidle, ← hcons.work]
    constructor
    · rintro (hm | ⟨i, hi⟩)
      · exact ⟨.inl (List.mem_cons_of_mem _ hm), fun heq => hnotMem (heq ▸ hm)⟩
      · exact ⟨.inr ⟨i, hi⟩, fun heq => hcons.apart i t' hi (heq ▸ List.mem_cons_self)⟩
    · rintro ⟨hm | hi, hne⟩
      · exact .inl ((List.mem_cons.mp hm).resolve_left hne)
      · exact .inr hi
  · exact hcons.apart i t' ht' (List.mem_cons_of_mem _ hm)

/-- A thread is done with its task. -/
theorem WorkSound.led (h : WorkSound heap tasks leads) {t : Task} {y : Entry γ κ ρ} {i : ι}
    (hidle : y.pending = false) (hi : leads i t) {leads' : ι → Task → Prop}
    (hleads : ∀ j t, leads' j t ↔ leads j t ∧ j ≠ i) (hone : ∀ t', leads i t' → t' = t) :
    WorkSound (heap.set t.entry y) tasks leads' := by
  have ht : Works heap t := (h.work t).mp (.inr ⟨i, hi⟩)
  refine ⟨fun t' => ?_, h.nodup, fun j k t' hj hk => ?_, fun j t' hj hm => ?_⟩
  · rw [works_observed ht hidle, ← h.work]
    constructor
    · rintro (hm | ⟨j, hj⟩)
      · exact ⟨.inl hm, fun heq => h.apart i t hi (heq ▸ hm)⟩
      · obtain ⟨hj, hne⟩ := (hleads j t').mp hj
        exact ⟨.inr ⟨j, hj⟩, fun heq => hne (h.alone j i t (heq ▸ hj) hi)⟩
    · rintro ⟨hm | ⟨j, hj⟩, hne⟩
      · exact .inl hm
      · refine .inr ⟨j, (hleads j t').mpr ⟨hj, ?_⟩⟩
        rintro rfl
        exact hne (hone t' hj)
  · exact h.alone j k t' ((hleads j t').mp hj).1 ((hleads k t').mp hk).1
  · exact h.apart j t' ((hleads j t').mp hj).1 hm

/-- Entries keep their cache and their key, and futures their entry. -/
theorem CallHolds.mono {c : Call γ κ} (h : CallHolds heap promises c) {heap' : List (Entry γ κ ρ)}
    {promises' : List (Promise ρ)}
    (hheap : ∀ (e : ℕ) (x : Entry γ κ ρ), heap[e]? = some x →
      ∃ y : Entry γ κ ρ, heap'[e]? = some y ∧ y.cache = x.cache ∧ y.key = x.key)
    (hpromises : ∀ (f : ℕ) (p : Promise ρ), promises[f]? = some p →
      ∃ q : Promise ρ, promises'[f]? = some q ∧ q.entry = p.entry) :
    CallHolds heap' promises' c where
  leading t ht := by
    obtain ⟨x, hx, hcache, hkey⟩ := h.leading t ht
    obtain ⟨y, hy, hycache, hykey⟩ := hheap _ x hx
    exact ⟨y, hy, hycache.trans hcache, hykey.trans hkey⟩
  awaiting f since hf := by
    obtain ⟨p, x, hp, hx, hcache, hkey⟩ := h.awaiting f since hf
    obtain ⟨q, hq, hentry⟩ := hpromises f p hp
    obtain ⟨y, hy, hycache, hykey⟩ := hheap _ x hx
    exact ⟨q, y, hq, hentry ▸ hy, hycache.trans hcache, hykey.trans hkey⟩

end Work

end FlavorCache
end Controller
end OpenstackPlatform
