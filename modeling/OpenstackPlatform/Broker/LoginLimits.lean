import Mathlib.Algebra.Order.Ring.Rat
import OpenstackPlatform.Library.Registry

/-!
# Sign-in limiters

The limiters of `management/broker/local_auth_limits.py` and of `management/broker/auth.py` that
live in the memory of the broker.  An attempt reserves before it checks anything and finishes when
it is decided.  A reservation holds an object, not a key: it keeps changing its object after the
entry is gone or belongs to another object.

* `KnownAccountLimits`, `DeviceFailureLimits`, `FailureLimits`: the tables with `reserve` and
  `finish`.
* `Limiter`, `Run`: the histories of a limiter, newest event first, with `outstanding` attempts.
* `AccountLimits`, `DeviceLimits`, `WindowLimits`: what holds of every history.
* `loginLimits`: the three together.
* `success_resets`: a success clears the failures of an exhausted window.
-/

namespace OpenstackPlatform
namespace Broker
namespace LoginLimits

open Library SlidingWindow

/-! ## The limiters -/

/-- The exceptions of the limiters. -/
inductive LimitError where
  | hashCapacity (message : String)
  | http (status : ℕ) (code message : String)
  deriving DecidableEq

section Limiters

variable {κ : Type} [DecidableEq κ]

/-- `AccountWindow` -/
structure AccountWindow where
  starts : List ℚ
  active : Bool
  deriving DecidableEq

/-- `KnownAccountLimits` -/
abbrev KnownAccountLimits (κ : Type) [DecidableEq κ] := Registry κ AccountWindow

namespace KnownAccountLimits

/-- The start of `KnownAccountLimits.reserve`: old starts leave every row, and empty rows go. -/
def expire (limits : KnownAccountLimits κ) (now : ℚ) : KnownAccountLimits κ :=
  limits.sweep (fun row => { row with starts := recent 60 now row.starts })
    fun row => !row.active && row.starts.isEmpty

/-- The end of `KnownAccountLimits.reserve`, with the row of the account. -/
def enter (limits : KnownAccountLimits κ) (key : κ) (row : ℕ) (now : ℚ) :
    KnownAccountLimits κ × Except LimitError ℕ :=
  if (limits.objects row).active then
    (limits, .error (.hashCapacity "known-account request already in flight"))
  else if 12 ≤ (limits.objects row).starts.length then
    (limits, .error (.http 429 "RATE_LIMITED" "Please wait before trying sign-in again."))
  else
    ((limits.modify row fun w => { starts := w.starts ++ [now], active := true }).touch key, .ok row)

/-- `KnownAccountLimits.reserve` -/
def reserve (capacity : ℕ) (limits : KnownAccountLimits κ) (key : κ) (now : ℚ) :
    KnownAccountLimits κ × Except LimitError ℕ :=
  let limits := limits.expire now
  match limits.table.lookup key with
  | some row => limits.enter key row now
  | none =>
    if capacity ≤ limits.size then
      (limits, .error (.hashCapacity "known-account admission capacity unavailable"))
    else enter (limits.create key ⟨[], false⟩) key limits.next now

/-- What `KnownAccountLimits.reserve` does when its context is left. -/
def finish (limits : KnownAccountLimits κ) (row : ℕ) : KnownAccountLimits κ :=
  limits.modify row fun w => { w with active := false }

end KnownAccountLimits

/-- `DeviceWindow` -/
structure DeviceWindow where
  failures : List ℚ
  pending : ℤ
  deriving DecidableEq

/-- `DeviceReservation` -/
structure DeviceReservation where
  row : Option ℕ := none
  denied : Bool := false
  deriving DecidableEq

/-- `DeviceFailureLimits` -/
abbrev DeviceFailureLimits (κ : Type) [DecidableEq κ] := Registry κ DeviceWindow

namespace DeviceFailureLimits

/-- The start of `DeviceFailureLimits.reserve`: old failures leave every row, and empty rows go. -/
def expire (limits : DeviceFailureLimits κ) (now : ℚ) : DeviceFailureLimits κ :=
  limits.sweep (fun row => { row with failures := recent 3600 now row.failures })
    fun row => decide (row.pending = 0) && row.failures.isEmpty

/-- The end of `DeviceFailureLimits.reserve`, with the row of the device. -/
def enter (limits : DeviceFailureLimits κ) (key : κ) (row : ℕ) :
    DeviceFailureLimits κ × DeviceReservation :=
  if 20 ≤ (limits.objects row).failures.length + (limits.objects row).pending then
    (limits, { denied := true })
  else
    ((limits.modify row fun w => { w with pending := w.pending + 1 }).touch key, { row := some row })

/-- `DeviceFailureLimits.reserve` -/
def reserve (capacity : ℕ) (limits : DeviceFailureLimits κ) (key : κ) (now : ℚ) :
    DeviceFailureLimits κ × DeviceReservation :=
  let limits := limits.expire now
  match limits.table.lookup key with
  | some row => limits.enter key row
  | none =>
    -- A live row is never evicted: the device stays untracked.
    if capacity ≤ limits.size then (limits, {})
    else enter (limits.create key ⟨[], 0⟩) key limits.next

/-- `DeviceFailureLimits.finish` -/
def finish (limits : DeviceFailureLimits κ) (reservation : DeviceReservation) (failed : Bool)
    (now : ℚ) : DeviceFailureLimits κ :=
  match reservation.row with
  | none => limits
  | some row => limits.modify row fun w =>
      { failures := if failed then w.failures ++ [now] else w.failures, pending := w.pending - 1 }

end DeviceFailureLimits

/-- `FailureWindow` -/
structure FailureWindow where
  expires : ℚ
  failures : ℕ
  pending : ℤ
  deriving DecidableEq

/-- `FailureLimits` -/
abbrev FailureLimits (κ : Type) [DecidableEq κ] := Registry κ FailureWindow

namespace FailureLimits

/-- The start of `FailureLimits.reserve`: rows without attempts go when they expired or are empty. -/
def expire (limits : FailureLimits κ) (now : ℚ) : FailureLimits κ :=
  limits.sweep id fun row =>
    decide (row.pending = 0) && (decide (row.expires ≤ now) || decide (row.failures = 0))

/-- The oldest row that may be evicted. -/
def evictable (limits : FailureLimits κ) : Option κ :=
  (limits.table.entries.reverse.find? fun e => decide ((limits.objects e.2).pending = 0) &&
    decide ((limits.objects e.2).failures < 5)).map (·.1)

/-- The end of `FailureLimits.reserve`, with the row of the pair. -/
def enter (limits : FailureLimits κ) (key : κ) (row : ℕ) : FailureLimits κ × Except LimitError ℕ :=
  if 5 ≤ (limits.objects row).failures + (limits.objects row).pending then
    (limits, .error (.http 429 "RATE_LIMITED"
      "Too many unsuccessful attempts. Wait a minute before trying again."))
  else
    ((limits.modify row fun w => { w with pending := w.pending + 1 }).touch key, .ok row)

/-- A new window for a key, and the end of `FailureLimits.reserve`. -/
def renew (limits : FailureLimits κ) (key : κ) (now : ℚ) : FailureLimits κ × Except LimitError ℕ :=
  enter (limits.create key ⟨now + 60, 0, 0⟩) key limits.next

/-- `FailureLimits.reserve`, for the key of a pair. -/
def reserve (limits : FailureLimits κ) (key : κ) (now : ℚ) : FailureLimits κ × Except LimitError ℕ :=
  let limits := limits.expire now
  match limits.table.lookup key with
  | some row =>
    if (limits.objects row).expires ≤ now then limits.renew key now else limits.enter key row
  | none =>
    if 4096 ≤ limits.size then
      match limits.evictable with
      | none => (limits, .error (.http 429 "RATE_LIMITED"
          "Please wait a minute before trying again."))
      | some oldest => renew (limits.erase oldest) key now
    else limits.renew key now

/-- `FailureLimits.finish` -/
def finish (limits : FailureLimits κ) (row : ℕ) (failed succeeded : Bool) : FailureLimits κ :=
  limits.modify row fun w =>
    { w with
      pending := w.pending - 1
      failures := if failed then w.failures + 1 else if succeeded then 0 else w.failures }

end FailureLimits

end Limiters

/-! ## Histories -/

section Histories

variable {κ ω : Type} [DecidableEq κ]

/-- How an attempt ended. -/
structure Outcome where
  failed : Bool
  succeeded : Bool
  deriving DecidableEq

/-- What happens to a limiter.  An attempt that was refused, or that is not tracked, holds no row. -/
inductive Event (κ : Type) where
  | reserved (key : κ) (row : Option ℕ) (now : ℚ)
  | finished (key : κ) (row : ℕ) (outcome : Outcome) (now : ℚ)

/-- The time of an event. -/
def Event.now : Event κ → ℚ
  | .reserved _ _ now => now
  | .finished _ _ _ now => now

/-- The attempts that hold a row and did not finish. -/
def outstanding : List (Event κ) → List (κ × ℕ)
  | [] => []
  | .reserved key (some row) _ :: past => (key, row) :: outstanding past
  | .reserved _ none _ :: past => outstanding past
  | .finished key row _ _ :: past => (outstanding past).erase (key, row)

/-- The number of outstanding attempts under a key. -/
def inFlight (key : κ) (past : List (Event κ)) : ℕ :=
  (outstanding past).countP (·.1 = key)

/-- The number of outstanding attempts that hold a row. -/
def inFlightOn (row : ℕ) (past : List (Event κ)) : ℕ :=
  (outstanding past).countP (·.2 = row)

/-- The times at which attempts under a key started, oldest first. -/
def startsOf (key : κ) : List (Event κ) → List ℚ
  | [] => []
  | .reserved key' (some _) now :: past =>
    if key' = key then startsOf key past ++ [now] else startsOf key past
  | .reserved _ none _ :: past => startsOf key past
  | .finished _ _ _ _ :: past => startsOf key past

/-- The times at which attempts under a key failed, oldest first. -/
def failuresOf (key : κ) : List (Event κ) → List ℚ
  | [] => []
  | .reserved _ _ _ :: past => failuresOf key past
  | .finished key' _ outcome now :: past =>
    if key' = key ∧ outcome.failed then failuresOf key past ++ [now] else failuresOf key past

/-- The failures of the attempts that held a row, since the last success of one. -/
def recordedOn (row : ℕ) : List (Event κ) → ℕ
  | [] => 0
  | .reserved _ _ _ :: past => recordedOn row past
  | .finished _ row' outcome _ :: past =>
    if row' = row then
      if outcome.failed then recordedOn row past + 1
      else if outcome.succeeded then 0 else recordedOn row past
    else recordedOn row past

/-- The clock has not passed a time. -/
def Late (past : List (Event κ)) (now : ℚ) : Prop := ∀ e ∈ past, e.now ≤ now

/-- A limiter: what `reserve` and `finish` do, and the row that a reservation holds. -/
structure Limiter (κ ω : Type) [DecidableEq κ] where
  initial : Registry κ ω
  reserve : Registry κ ω → κ → ℚ → Registry κ ω × Option ℕ
  finish : Registry κ ω → ℕ → Outcome → ℚ → Registry κ ω

/-- One call of a limiter.  An attempt finishes once. -/
inductive Step (limiter : Limiter κ ω) (past : List (Event κ)) (s : Registry κ ω) :
    Event κ → Registry κ ω → Prop where
  | reserve {key : κ} {now : ℚ} (htime : Late past now) :
      Step limiter past s (.reserved key (limiter.reserve s key now).2 now)
        (limiter.reserve s key now).1
  | finish {key : κ} {row : ℕ} {outcome : Outcome} {now : ℚ} (htime : Late past now)
      (hrow : (key, row) ∈ outstanding past) :
      Step limiter past s (.finished key row outcome now) (limiter.finish s row outcome now)

/-- The histories of a limiter, newest event first, with the state after them. -/
inductive History (limiter : Limiter κ ω) : List (Event κ) → Registry κ ω → Prop where
  | start : History limiter [] limiter.initial
  | step {past : List (Event κ)} {s s' : Registry κ ω} {e : Event κ}
      (h : History limiter past s) (hstep : Step limiter past s e s') :
      History limiter (e :: past) s'

section Counting

variable (past : List (Event κ)) (key key' : κ) (row row' : ℕ) (outcome : Outcome) (now : ℚ)

theorem inFlight_reserved : inFlight key' (.reserved key (some row) now :: past) =
    inFlight key' past + if key = key' then 1 else 0 := by
  rw [inFlight, outstanding, List.countP_cons]
  simp only [inFlight, decide_eq_true_eq]

theorem inFlightOn_reserved : inFlightOn row' (.reserved key (some row) now :: past) =
    inFlightOn row' past + if row = row' then 1 else 0 := by
  rw [inFlightOn, outstanding, List.countP_cons]
  simp only [inFlightOn, decide_eq_true_eq]

variable {past key row}

theorem inFlight_finished (h : (key, row) ∈ outstanding past) :
    inFlight key' (.finished key row outcome now :: past) + (if key = key' then 1 else 0) =
      inFlight key' past := by
  rw [inFlight, inFlight, outstanding, (List.perm_cons_erase h).countP_eq, List.countP_cons]
  simp only [decide_eq_true_eq]

theorem inFlightOn_finished (h : (key, row) ∈ outstanding past) :
    inFlightOn row' (.finished key row outcome now :: past) + (if row = row' then 1 else 0) =
      inFlightOn row' past := by
  rw [inFlightOn, inFlightOn, outstanding, (List.perm_cons_erase h).countP_eq, List.countP_cons]
  simp only [decide_eq_true_eq]

theorem inFlight_pos (h : (key, row) ∈ outstanding past) : 0 < inFlight key past :=
  List.countP_pos_iff.mpr ⟨_, h, decide_eq_true rfl⟩

theorem inFlightOn_pos (h : (key, row) ∈ outstanding past) : 0 < inFlightOn row past :=
  List.countP_pos_iff.mpr ⟨_, h, decide_eq_true rfl⟩

/-- Without an entry there is no attempt. -/
theorem inFlight_eq_zero (h : ∀ row, (key, row) ∉ outstanding past) : inFlight key past = 0 := by
  rw [inFlight, List.countP_eq_zero]
  rintro ⟨key', row⟩ hmem hkey
  obtain rfl : key' = key := of_decide_eq_true hkey
  exact h row hmem

end Counting

/-! ## Times -/

omit [DecidableEq κ] in
theorem Late.of_cons {past : List (Event κ)} {e : Event κ} {now : ℚ} (h : Late (e :: past) now) :
    e.now ≤ now ∧ Late past now :=
  ⟨h e List.mem_cons_self, fun d hd => h d (List.mem_cons_of_mem e hd)⟩

omit [DecidableEq κ] in
/-- There is a time that the clock has not passed. -/
theorem exists_late : ∀ past : List (Event κ), ∃ now, Late past now
  | [] => ⟨0, fun _ h => absurd h List.not_mem_nil⟩
  | e :: past => by
    obtain ⟨now, hlate⟩ := exists_late past
    refine ⟨max e.now now, fun d hd => ?_⟩
    obtain rfl | hd := List.mem_cons.mp hd
    · exact le_max_left _ _
    · exact le_trans (hlate d hd) (le_max_right _ _)

theorem le_of_mem_startsOf {key : κ} {now t : ℚ} : ∀ {past : List (Event κ)}, Late past now →
    t ∈ startsOf key past → t ≤ now
  | [], _, h => absurd h List.not_mem_nil
  | .finished _ _ _ _ :: _, hlate, h => le_of_mem_startsOf hlate.of_cons.2 h
  | .reserved _ none _ :: _, hlate, h => le_of_mem_startsOf hlate.of_cons.2 h
  | .reserved _ (some _) _ :: _, hlate, h => by
    rw [startsOf] at h
    split at h
    · obtain h | h := List.mem_append.mp h
      · exact le_of_mem_startsOf hlate.of_cons.2 h
      · rw [List.mem_singleton.mp h]
        exact hlate.of_cons.1
    · exact le_of_mem_startsOf hlate.of_cons.2 h

theorem le_of_mem_failuresOf {key : κ} {now t : ℚ} : ∀ {past : List (Event κ)}, Late past now →
    t ∈ failuresOf key past → t ≤ now
  | [], _, h => absurd h List.not_mem_nil
  | .reserved _ _ _ :: _, hlate, h => le_of_mem_failuresOf hlate.of_cons.2 h
  | .finished _ _ _ _ :: _, hlate, h => by
    rw [failuresOf] at h
    split at h
    · obtain h | h := List.mem_append.mp h
      · exact le_of_mem_failuresOf hlate.of_cons.2 h
      · rw [List.mem_singleton.mp h]
        exact hlate.of_cons.1
    · exact le_of_mem_failuresOf hlate.of_cons.2 h

/-- A call on a limiter. -/
inductive Call (κ : Type) where
  | reserve (key : κ) (now : ℚ)
  | finish (key : κ) (row : ℕ) (outcome : Outcome) (now : ℚ)

/-- The history of some calls, newest first, with the state after them. -/
def replay (limiter : Limiter κ ω) : List (Call κ) → List (Event κ) × Registry κ ω
  | [] => ([], limiter.initial)
  | .reserve key now :: calls =>
    let (past, s) := replay limiter calls
    (.reserved key (limiter.reserve s key now).2 now :: past, (limiter.reserve s key now).1)
  | .finish key row outcome now :: calls =>
    let (past, s) := replay limiter calls
    (.finished key row outcome now :: past, limiter.finish s row outcome now)

instance (past : List (Event κ)) (now : ℚ) : Decidable (Late past now) :=
  inferInstanceAs (Decidable (∀ e ∈ past, e.now ≤ now))

end Histories

/-! ## Known accounts -/

section KnownAccounts

variable {κ : Type} [DecidableEq κ] {capacity : ℕ} {past : List (Event κ)} {now : ℚ}

/-- What a table of known accounts says of the history. -/
structure AccountInvariant (capacity : ℕ) (past : List (Event κ)) (now : ℚ)
    (s : KnownAccountLimits κ) : Prop where
  tracks : ∀ key, Tracks 60 now (Registry.queue (·.starts) s key) (startsOf key past)
  holds : ∀ key row, (key, row) ∈ outstanding past → s.table.lookup key = some row
  active : ∀ key row, s.table.lookup key = some row →
    inFlight key past = if (s.objects row).active then 1 else 0
  bounded : ∀ key, Bounded 12 60 (startsOf key past)
  size_le : s.size ≤ capacity

variable {s : KnownAccountLimits κ}

theorem AccountInvariant.mono {now' : ℚ} (h : AccountInvariant capacity past now s)
    (hle : now ≤ now') : AccountInvariant capacity past now' s :=
  ⟨fun key => (h.tracks key).mono hle, h.holds, h.active, h.bounded, h.size_le⟩

/-- An attempt in flight holds an active row. -/
theorem AccountInvariant.active_of_mem {key : κ} {row : ℕ}
    (h : AccountInvariant capacity past now s) (hmem : (key, row) ∈ outstanding past) :
    (s.objects row).active = true := by
  by_contra hidle
  have hzero := h.active key row (h.holds key row hmem)
  rw [if_neg hidle] at hzero
  have := inFlight_pos hmem
  omega

theorem AccountInvariant.expire {s : KnownAccountLimits κ}
    (h : AccountInvariant capacity past now s)
    (hsorted : ∀ key, (startsOf key past).Pairwise (· ≤ ·)) :
    AccountInvariant capacity past now (KnownAccountLimits.expire s now) where
  tracks key := by
    refine Registry.tracks_sweep (fun w => rfl) (fun w hw => ?_) (hsorted key) (h.tracks key)
    exact List.isEmpty_iff.mp (Bool.and_eq_true_iff.mp hw).2
  holds key row hmem := by
    have hactive := h.active_of_mem hmem
    refine (Registry.lookup_sweep _ _ _ _ _).mpr ⟨h.holds key row hmem, ?_⟩
    simp only [hactive, Bool.not_true, Bool.false_and]
  active key row hlookup := by
    have hlookup := ((Registry.lookup_sweep _ _ _ _ _).mp hlookup).1
    rw [KnownAccountLimits.expire, Registry.sweep_objects_of_lookup _ _ hlookup]
    exact h.active key row hlookup
  bounded := h.bounded
  size_le := le_trans (Registry.size_sweep_le _ _ _) h.size_le

/-- A row for an account without one. -/
theorem AccountInvariant.create {s : KnownAccountLimits κ} {key : κ}
    (h : AccountInvariant capacity past now s) (hnone : s.table.lookup key = none)
    (hroom : s.size < capacity) :
    AccountInvariant capacity past now (s.create key ⟨[], false⟩) where
  tracks key' := by
    rw [Registry.queue_create hnone rfl]
    exact h.tracks key'
  holds key' row hmem := (Registry.create_of_lookup hnone (h.holds key' row hmem)).1
  active key' row hlookup := by
    obtain ⟨rfl, rfl, hobject⟩ | ⟨-, hlookup, hobject⟩ := Registry.create_cases hlookup
    · rw [hobject]
      refine inFlight_eq_zero fun row hmem => ?_
      rw [h.holds _ row hmem] at hnone
      cases hnone
    · rw [hobject]
      exact h.active key' row hlookup
  bounded := h.bounded
  size_le := by
    have := Registry.size_create_le s key ⟨[], false⟩
    omega

/-- An attempt that is refused changes nothing. -/
theorem AccountInvariant.refused (h : AccountInvariant capacity past now s) (key : κ) :
    AccountInvariant capacity (.reserved key none now :: past) now s :=
  ⟨h.tracks, h.holds, h.active, h.bounded, h.size_le⟩

/-- The end of `reserve`, with the row of the account. -/
theorem AccountInvariant.enter {s : KnownAccountLimits κ} {key : κ} {row : ℕ}
    (h : AccountInvariant capacity past now s) (hlookup : s.table.lookup key = some row)
    (hlate : Late past now) (hsorted : ∀ key, (startsOf key past).Pairwise (· ≤ ·)) :
    AccountInvariant capacity
      (.reserved key (KnownAccountLimits.enter s key row now).2.toOption now :: past) now
      (KnownAccountLimits.enter s key row now).1 := by
  unfold KnownAccountLimits.enter
  split
  · exact h.refused key
  · rename_i hidle
    split
    · exact h.refused key
    · rename_i hfew
      have hsorted' : (startsOf key past ++ [now]).Pairwise (· ≤ ·) :=
        sorted_append (hsorted key) fun t ht => le_of_mem_startsOf hlate ht
      have hzero := h.active key row hlookup
      rw [if_neg hidle] at hzero
      refine ⟨fun key' => ?_, fun key' row' hmem => ?_, fun key' row' hlookup' => ?_,
        fun key' => ?_, ?_⟩
      · rw [Registry.queue_touch, Registry.queue_modify hlookup]
        show Tracks 60 now _ (if key = key' then startsOf key' past ++ [now] else startsOf key' past)
        by_cases hkey : key' = key
        · subst hkey
          have htracks := h.tracks key'
          rw [Registry.queue_of_lookup hlookup] at htracks
          rw [if_pos rfl, if_pos rfl]
          exact htracks.append hsorted'
        · rw [if_neg hkey, if_neg (Ne.symm hkey)]
          exact h.tracks key'
      · rw [Registry.lookup_touch', Registry.modify_table]
        obtain heq | hmem := List.mem_cons.mp hmem
        · obtain ⟨rfl, rfl⟩ := Prod.mk.inj heq
          exact hlookup
        · exact h.holds key' row' hmem
      · rw [Registry.lookup_touch', Registry.modify_table] at hlookup'
        rw [Registry.touch_objects]
        show inFlight key' (.reserved key (some row) now :: past) = _
        rw [inFlight_reserved]
        by_cases hkey : key' = key
        · subst hkey
          cases hlookup.symm.trans hlookup'
          rw [Registry.modify_objects_self, if_pos rfl, if_pos rfl, hzero]
        · rw [Registry.modify_objects_of_ne hlookup hlookup' hkey, if_neg (Ne.symm hkey)]
          exact h.active key' row' hlookup'
      · show Bounded 12 60 (if key = key' then startsOf key' past ++ [now] else startsOf key' past)
        split
        · rename_i hkey
          subst hkey
          refine (h.bounded key).append (hsorted key) ?_
          have htracks := h.tracks key
          rw [Registry.queue_of_lookup hlookup] at htracks
          rw [← htracks.recent_eq now (le_refl now)]
          have := (recent_sublist 60 now (s.objects row).starts).length_le
          omega
        · exact h.bounded key'
      · rw [Registry.size_touch, Registry.size_modify]
        exact h.size_le

theorem AccountInvariant.reserve {s : KnownAccountLimits κ}
    (h : AccountInvariant capacity past now s) (key : κ) (hlate : Late past now)
    (hsorted : ∀ key, (startsOf key past).Pairwise (· ≤ ·)) :
    AccountInvariant capacity
      (.reserved key (KnownAccountLimits.reserve capacity s key now).2.toOption now :: past) now
      (KnownAccountLimits.reserve capacity s key now).1 := by
  have hexpire := h.expire hsorted
  unfold KnownAccountLimits.reserve
  dsimp only
  split
  · rename_i row hlookup
    exact hexpire.enter hlookup hlate hsorted
  · rename_i hnone
    split
    · exact hexpire.refused key
    · rename_i hroom
      refine (hexpire.create hnone (not_le.mp hroom)).enter ?_ hlate hsorted
      rw [Registry.lookup_create, if_pos rfl]

theorem AccountInvariant.finish {s : KnownAccountLimits κ} {key : κ} {row : ℕ}
    (h : AccountInvariant capacity past now s) (hmem : (key, row) ∈ outstanding past)
    (outcome : Outcome) :
    AccountInvariant capacity (.finished key row outcome now :: past) now
      (KnownAccountLimits.finish s row) where
  tracks key' := by
    rw [KnownAccountLimits.finish, Registry.queue_modify (h.holds key row hmem)]
    split
    · rename_i hkey
      have htracks := h.tracks key
      rw [Registry.queue_of_lookup (h.holds key row hmem)] at htracks
      rw [hkey]
      exact htracks
    · exact h.tracks key'
  holds key' row' hmem' := h.holds key' row' (List.mem_of_mem_erase hmem')
  active key' row' hlookup := by
    have hcount := inFlight_finished key' outcome now hmem
    by_cases hkey : key' = key
    · subst hkey
      cases (h.holds key' row hmem).symm.trans hlookup
      have hone := h.active key' row hlookup
      rw [h.active_of_mem hmem, if_pos rfl] at hone
      rw [if_pos rfl] at hcount
      rw [KnownAccountLimits.finish, Registry.modify_objects_self, if_neg Bool.false_ne_true]
      omega
    · rw [if_neg (Ne.symm hkey), Nat.add_zero] at hcount
      rw [KnownAccountLimits.finish,
        Registry.modify_objects_of_ne (h.holds key row hmem) hlookup hkey, hcount]
      exact h.active key' row' hlookup
  bounded := h.bounded
  size_le := h.size_le

end KnownAccounts

/-! ## Devices -/

section Devices

variable {κ : Type} [DecidableEq κ] {capacity : ℕ} {past : List (Event κ)} {now : ℚ}

/-- What a table of devices says of the history. -/
structure DeviceInvariant (capacity : ℕ) (past : List (Event κ)) (now : ℚ)
    (s : DeviceFailureLimits κ) : Prop where
  tracks : ∀ key, Tracks 3600 now (Registry.queue (·.failures) s key) (failuresOf key past)
  holds : ∀ key row, (key, row) ∈ outstanding past → s.table.lookup key = some row
  pending : ∀ key row, s.table.lookup key = some row →
    (s.objects row).pending = inFlight key past ∧
      (s.objects row).failures.length + (s.objects row).pending ≤ 20
  nonneg : ∀ row < s.next, 0 ≤ (s.objects row).pending
  bounded : ∀ key, Bounded 20 3600 (failuresOf key past)
  size_le : s.size ≤ capacity

variable {s : DeviceFailureLimits κ}

theorem DeviceInvariant.mono {now' : ℚ} (h : DeviceInvariant capacity past now s)
    (hle : now ≤ now') : DeviceInvariant capacity past now' s :=
  ⟨fun key => (h.tracks key).mono hle, h.holds, h.pending, h.nonneg, h.bounded, h.size_le⟩

/-- An outstanding attempt is counted in its row. -/
theorem DeviceInvariant.pending_pos {key : κ} {row : ℕ} (h : DeviceInvariant capacity past now s)
    (hmem : (key, row) ∈ outstanding past) : 0 < (s.objects row).pending := by
  rw [(h.pending key row (h.holds key row hmem)).1]
  exact Int.natCast_pos.mpr (inFlight_pos hmem)

theorem DeviceInvariant.expire {s : DeviceFailureLimits κ}
    (h : DeviceInvariant capacity past now s)
    (hsorted : ∀ key, (failuresOf key past).Pairwise (· ≤ ·)) :
    DeviceInvariant capacity past now (DeviceFailureLimits.expire s now) where
  tracks key := by
    refine Registry.tracks_sweep (fun w => rfl) (fun w hw => ?_) (hsorted key) (h.tracks key)
    exact List.isEmpty_iff.mp (Bool.and_eq_true_iff.mp hw).2
  holds key row hmem := by
    have hpos := h.pending_pos hmem
    refine (Registry.lookup_sweep _ _ _ _ _).mpr ⟨h.holds key row hmem, ?_⟩
    have hne : ¬(s.objects row).pending = 0 := by omega
    simp only [hne, decide_false, Bool.false_and]
  pending key row hlookup := by
    have hlookup := ((Registry.lookup_sweep _ _ _ _ _).mp hlookup).1
    obtain ⟨hcount, hle⟩ := h.pending key row hlookup
    rw [DeviceFailureLimits.expire, Registry.sweep_objects_of_lookup _ _ hlookup]
    have hlength := (recent_sublist 3600 now (s.objects row).failures).length_le
    refine ⟨hcount, ?_⟩
    show ((recent 3600 now (s.objects row).failures).length : ℤ) + (s.objects row).pending ≤ 20
    omega
  nonneg row hrow := by
    obtain heq | ⟨-, heq⟩ := Registry.sweep_objects_cases s row
      (fun row => { row with failures := recent 3600 now row.failures })
      (fun row => decide (row.pending = 0) && row.failures.isEmpty)
    · rw [DeviceFailureLimits.expire, heq]
      exact h.nonneg row hrow
    · rw [DeviceFailureLimits.expire, heq]
      exact h.nonneg row hrow
  bounded := h.bounded
  size_le := le_trans (Registry.size_sweep_le _ _ _) h.size_le

/-- A row for a device without one. -/
theorem DeviceInvariant.create {s : DeviceFailureLimits κ} {key : κ}
    (h : DeviceInvariant capacity past now s) (hnone : s.table.lookup key = none)
    (hroom : s.size < capacity) :
    DeviceInvariant capacity past now (s.create key ⟨[], 0⟩) where
  tracks key' := by
    rw [Registry.queue_create hnone rfl]
    exact h.tracks key'
  holds key' row hmem := (Registry.create_of_lookup hnone (h.holds key' row hmem)).1
  pending key' row hlookup := by
    obtain ⟨rfl, rfl, hobject⟩ | ⟨-, hlookup, hobject⟩ := Registry.create_cases hlookup
    · have hzero : inFlight key' past = 0 := by
        refine inFlight_eq_zero fun row hmem => ?_
        rw [h.holds _ row hmem] at hnone
        cases hnone
      rw [hobject, hzero]
      exact ⟨rfl, by decide⟩
    · rw [hobject]
      exact h.pending key' row hlookup
  nonneg row hrow := by
    rw [Registry.create_objects]
    split
    · exact le_refl 0
    · rw [Registry.create_next] at hrow
      exact h.nonneg row (by omega)
  bounded := h.bounded
  size_le := by
    have := Registry.size_create_le s key ⟨[], 0⟩
    omega

/-- An attempt that is denied, or not tracked, changes nothing. -/
theorem DeviceInvariant.refused (h : DeviceInvariant capacity past now s) (key : κ) :
    DeviceInvariant capacity (.reserved key none now :: past) now s :=
  ⟨h.tracks, h.holds, h.pending, h.nonneg, h.bounded, h.size_le⟩

/-- The end of `reserve`, with the row of the device. -/
theorem DeviceInvariant.enter {s : DeviceFailureLimits κ} {key : κ} {row : ℕ}
    (h : DeviceInvariant capacity past now s) (hlookup : s.table.lookup key = some row) :
    DeviceInvariant capacity
      (.reserved key (DeviceFailureLimits.enter s key row).2.row now :: past) now
      (DeviceFailureLimits.enter s key row).1 := by
  unfold DeviceFailureLimits.enter
  split
  · exact h.refused key
  · rename_i hfew
    refine ⟨fun key' => ?_, fun key' row' hmem => ?_, fun key' row' hlookup' => ?_,
      fun row' hrow' => ?_, h.bounded, ?_⟩
    · rw [Registry.queue_touch, Registry.queue_modify hlookup]
      show Tracks 3600 now _ (failuresOf key' past)
      split
      · rename_i hkey
        have htracks := h.tracks key
        rw [Registry.queue_of_lookup hlookup] at htracks
        rw [hkey]
        exact htracks
      · exact h.tracks key'
    · rw [Registry.lookup_touch', Registry.modify_table]
      obtain heq | hmem := List.mem_cons.mp hmem
      · obtain ⟨rfl, rfl⟩ := Prod.mk.inj heq
        exact hlookup
      · exact h.holds key' row' hmem
    · rw [Registry.lookup_touch', Registry.modify_table] at hlookup'
      rw [Registry.touch_objects]
      show _ = ((inFlight key' (.reserved key (some row) now :: past) : ℕ) : ℤ) ∧ _
      rw [inFlight_reserved]
      by_cases hkey : key' = key
      · subst hkey
        cases hlookup.symm.trans hlookup'
        obtain ⟨hcount, -⟩ := h.pending key' row hlookup
        rw [Registry.modify_objects_self, if_pos rfl]
        constructor
        · show (s.objects row).pending + 1 = _
          rw [hcount]
          rfl
        · show ((s.objects row).failures.length : ℤ) + ((s.objects row).pending + 1) ≤ 20
          omega
      · rw [Registry.modify_objects_of_ne hlookup hlookup' hkey, if_neg (Ne.symm hkey)]
        exact h.pending key' row' hlookup'
    · rw [Registry.touch_next, Registry.modify_next] at hrow'
      have hnonneg := h.nonneg row' hrow'
      rw [Registry.touch_objects, Registry.modify_objects]
      split
      · show 0 ≤ (s.objects row').pending + 1
        omega
      · exact hnonneg
    · rw [Registry.size_touch, Registry.size_modify]
      exact h.size_le

theorem DeviceInvariant.reserve {s : DeviceFailureLimits κ}
    (h : DeviceInvariant capacity past now s) (key : κ)
    (hsorted : ∀ key, (failuresOf key past).Pairwise (· ≤ ·)) :
    DeviceInvariant capacity
      (.reserved key (DeviceFailureLimits.reserve capacity s key now).2.row now :: past) now
      (DeviceFailureLimits.reserve capacity s key now).1 := by
  have hexpire := h.expire hsorted
  unfold DeviceFailureLimits.reserve
  dsimp only
  split
  · rename_i row hlookup
    exact hexpire.enter hlookup
  · rename_i hnone
    split
    · exact hexpire.refused key
    · rename_i hroom
      refine (hexpire.create hnone (not_le.mp hroom)).enter ?_
      rw [Registry.lookup_create, if_pos rfl]

theorem DeviceInvariant.finish {s : DeviceFailureLimits κ} {key : κ} {row : ℕ}
    (h : DeviceInvariant capacity past now s) (hmem : (key, row) ∈ outstanding past)
    (outcome : Outcome) (hlate : Late past now)
    (hsorted : ∀ key, (failuresOf key past).Pairwise (· ≤ ·)) :
    DeviceInvariant capacity (.finished key row outcome now :: past) now
      (DeviceFailureLimits.finish s { row := some row } outcome.failed now) := by
  have hlookup := h.holds key row hmem
  have hpos := h.pending_pos hmem
  obtain ⟨hpending, hle⟩ := h.pending key row hlookup
  have htracks := h.tracks key
  rw [Registry.queue_of_lookup hlookup] at htracks
  have hsorted' : (failuresOf key past ++ [now]).Pairwise (· ≤ ·) :=
    sorted_append (hsorted key) fun t ht => le_of_mem_failuresOf hlate ht
  refine ⟨fun key' => ?_, fun key' row' hmem' => h.holds key' row' (List.mem_of_mem_erase hmem'),
    fun key' row' hlookup' => ?_, fun row' hrow' => ?_, fun key' => ?_, h.size_le⟩
  · rw [DeviceFailureLimits.finish, Registry.queue_modify hlookup, failuresOf]
    by_cases hkey : key' = key
    · subst hkey
      cases outcome.failed with
      | false => simpa using htracks
      | true => simpa using htracks.append hsorted'
    · rw [if_neg hkey, if_neg fun hboth => hkey hboth.1.symm]
      exact h.tracks key'
  · have hcount := inFlight_finished key' outcome now hmem
    by_cases hkey : key' = key
    · subst hkey
      cases hlookup.symm.trans hlookup'
      rw [if_pos rfl] at hcount
      rw [DeviceFailureLimits.finish, Registry.modify_objects_self]
      constructor
      · show (s.objects row).pending - 1 = _
        omega
      · show ((if outcome.failed then (s.objects row).failures ++ [now]
          else (s.objects row).failures).length : ℤ) + ((s.objects row).pending - 1) ≤ 20
        split
        · rw [List.length_append, List.length_singleton]
          omega
        · omega
    · rw [if_neg (Ne.symm hkey), Nat.add_zero] at hcount
      rw [DeviceFailureLimits.finish, Registry.modify_objects_of_ne hlookup hlookup' hkey, hcount]
      exact h.pending key' row' hlookup'
  · rw [DeviceFailureLimits.finish, Registry.modify_objects]
    split
    · rename_i hrow
      subst hrow
      show 0 ≤ (s.objects row').pending - 1
      omega
    · exact h.nonneg row' hrow'
  · rw [failuresOf]
    split
    · rename_i hfailed
      obtain ⟨rfl, -⟩ := hfailed
      refine (h.bounded key).append (hsorted key) ?_
      rw [← htracks.recent_eq now (le_refl now)]
      have := (recent_sublist 3600 now (s.objects row).failures).length_le
      omega
    · exact h.bounded key'

end Devices

/-! ## Pairs of a name and an address -/

section Pairs

variable {κ : Type} [DecidableEq κ] {past : List (Event κ)} {now : ℚ}

/-- What a table of windows says of the history. -/
structure WindowInvariant (past : List (Event κ)) (s : FailureLimits κ) : Prop where
  objects : ∀ row < s.next, (s.objects row).pending = inFlightOn row past ∧
    (s.objects row).failures = recordedOn row past ∧
      (s.objects row).failures + (s.objects row).pending ≤ 5
  fresh : ∀ row, s.next ≤ row → inFlightOn row past = 0 ∧ recordedOn row past = 0
  owner : ∀ key key' row, (key, row) ∈ outstanding past → s.table.lookup key' = some row →
    key' = key
  size_le : s.size ≤ 4096

theorem WindowInvariant.expire {s : FailureLimits κ} (h : WindowInvariant past s) (now : ℚ) :
    WindowInvariant past (FailureLimits.expire s now) where
  objects row hrow := by
    obtain heq | ⟨-, heq⟩ := Registry.sweep_objects_cases s row id fun row =>
      decide (row.pending = 0) && (decide (row.expires ≤ now) || decide (row.failures = 0))
    · rw [FailureLimits.expire, heq]
      exact h.objects row hrow
    · rw [FailureLimits.expire, heq]
      exact h.objects row hrow
  fresh := h.fresh
  owner key key' row hmem hlookup :=
    h.owner key key' row hmem ((Registry.lookup_sweep _ _ _ _ _).mp hlookup).1
  size_le := le_trans (Registry.size_sweep_le _ _ _) h.size_le

variable {s : FailureLimits κ}

theorem WindowInvariant.refused (h : WindowInvariant past s) (key : κ) :
    WindowInvariant (.reserved key none now :: past) s :=
  ⟨h.objects, h.fresh, h.owner, h.size_le⟩

/-- A window that is not the object of a key is not touched by a new window for the key. -/
theorem WindowInvariant.create {s : FailureLimits κ} (h : WindowInvariant past s) (key : κ)
    (hsize : (s.create key ⟨now + 60, 0, 0⟩).size ≤ 4096) :
    WindowInvariant past (s.create key ⟨now + 60, 0, 0⟩) where
  objects row hrow := by
    rw [Registry.create_objects]
    split
    · rename_i hnew
      obtain ⟨hflight, hrecorded⟩ := h.fresh row (by omega)
      rw [hflight, hrecorded]
      refine ⟨rfl, rfl, ?_⟩
      show ((0 : ℕ) : ℤ) + 0 ≤ 5
      decide
    · rw [Registry.create_next] at hrow
      exact h.objects row (by omega)
  fresh row hrow := by
    rw [Registry.create_next] at hrow
    exact h.fresh row (by omega)
  owner key' key'' row hmem hlookup := by
    rw [Registry.lookup_create] at hlookup
    split at hlookup
    · have hnew := Option.some.inj hlookup
      have hflight := (h.fresh row (by omega)).1
      have := inFlightOn_pos hmem
      omega
    · exact h.owner key' key'' row hmem hlookup
  size_le := hsize

/-- The end of `reserve`, with the row of the pair. -/
theorem WindowInvariant.enter {s : FailureLimits κ} {key : κ} {row : ℕ}
    (h : WindowInvariant past s) (hlookup : s.table.lookup key = some row) :
    WindowInvariant (.reserved key (FailureLimits.enter s key row).2.toOption now :: past)
      (FailureLimits.enter s key row).1 := by
  have hrow := s.lt_next key row hlookup
  unfold FailureLimits.enter
  split
  · exact h.refused key
  · rename_i hfew
    refine ⟨fun row' hrow' => ?_, fun row' hrow' => ?_, fun key' key'' row' hmem hlookup' => ?_, ?_⟩
    · rw [Registry.touch_next, Registry.modify_next] at hrow'
      obtain ⟨hpending, hfailures, hle⟩ := h.objects row' hrow'
      rw [Registry.touch_objects, Registry.modify_objects]
      show _ = ((inFlightOn row' (.reserved key (some row) now :: past) : ℕ) : ℤ) ∧
        _ = recordedOn row' past ∧ _
      rw [inFlightOn_reserved]
      by_cases heq : row' = row
      · subst heq
        rw [if_pos rfl, if_pos rfl]
        refine ⟨?_, hfailures, ?_⟩
        · show (s.objects row').pending + 1 = _
          rw [hpending]
          rfl
        · show ((s.objects row').failures : ℤ) + ((s.objects row').pending + 1) ≤ 5
          omega
      · rw [if_neg heq, if_neg (Ne.symm heq)]
        exact ⟨hpending, hfailures, hle⟩
    · rw [Registry.touch_next, Registry.modify_next] at hrow'
      obtain ⟨hflight, hrecorded⟩ := h.fresh row' hrow'
      show inFlightOn row' (.reserved key (some row) now :: past) = 0 ∧ recordedOn row' past = 0
      rw [inFlightOn_reserved, if_neg (by omega), hflight]
      exact ⟨rfl, hrecorded⟩
    · rw [Registry.lookup_touch', Registry.modify_table] at hlookup'
      obtain heq | hmem := List.mem_cons.mp hmem
      · obtain ⟨rfl, rfl⟩ := Prod.mk.inj heq
        exact s.key_eq key'' key' row' hlookup' hlookup
      · exact h.owner key' key'' row' hmem hlookup'
    · rw [Registry.size_touch, Registry.size_modify]
      exact h.size_le

theorem WindowInvariant.renew {key : κ} (h : WindowInvariant past s)
    (hsize : (s.create key ⟨now + 60, 0, 0⟩).size ≤ 4096) :
    WindowInvariant (.reserved key (FailureLimits.renew s key now).2.toOption now :: past)
      (FailureLimits.renew s key now).1 :=
  (h.create key hsize).enter (by rw [Registry.lookup_create, if_pos rfl])

/-- The row that is evicted has an entry. -/
theorem lookup_of_evictable {oldest : κ} (h : FailureLimits.evictable s = some oldest) :
    ∃ row, s.table.lookup oldest = some row ∧ (s.objects row).pending = 0 ∧
      (s.objects row).failures < 5 := by
  obtain ⟨⟨key, row⟩, hfind, rfl⟩ := Option.map_eq_some_iff.mp h
  have hmem := List.mem_reverse.mp (List.mem_of_find?_eq_some hfind)
  have hrow := List.find?_some hfind
  rw [Bool.and_eq_true] at hrow
  exact ⟨row, Table.lookup_eq_some_iff.mpr hmem, of_decide_eq_true hrow.1, of_decide_eq_true hrow.2⟩

theorem WindowInvariant.reserve {s : FailureLimits κ} (h : WindowInvariant past s) (key : κ)
    (now : ℚ) :
    WindowInvariant (.reserved key (FailureLimits.reserve s key now).2.toOption now :: past)
      (FailureLimits.reserve s key now).1 := by
  have hexpire := h.expire now
  unfold FailureLimits.reserve
  dsimp only
  split
  · rename_i row hlookup
    split
    · refine hexpire.renew ?_
      rw [Registry.size_create_of_lookup _ hlookup]
      exact hexpire.size_le
    · exact hexpire.enter hlookup
  · split
    · split
      · exact hexpire.refused key
      · rename_i oldest holdest
        obtain ⟨row, hlookup, -⟩ := lookup_of_evictable holdest
        have hsize := Registry.size_erase_of_lookup hlookup
        have hfull := hexpire.size_le
        have herase : WindowInvariant past
            (Registry.erase (FailureLimits.expire s now) oldest) := by
          refine ⟨hexpire.objects, hexpire.fresh, fun key key' row hmem hrow => ?_, by omega⟩
          rw [Registry.lookup_erase] at hrow
          split at hrow
          · cases hrow
          · exact hexpire.owner key key' row hmem hrow
        refine herase.renew ?_
        have := Registry.size_create_le (Registry.erase (FailureLimits.expire s now) oldest) key
          ⟨now + 60, 0, 0⟩
        omega
    · rename_i hroom
      refine hexpire.renew ?_
      have := Registry.size_create_le (FailureLimits.expire s now) key ⟨now + 60, 0, 0⟩
      omega

theorem WindowInvariant.finish {s : FailureLimits κ} {key : κ} {row : ℕ}
    (h : WindowInvariant past s) (hmem : (key, row) ∈ outstanding past) (outcome : Outcome) :
    WindowInvariant (.finished key row outcome now :: past)
      (FailureLimits.finish s row outcome.failed outcome.succeeded) := by
  have hpos := inFlightOn_pos hmem
  have hrow : row < s.next := by
    by_contra hfresh
    have := (h.fresh row (by omega)).1
    omega
  refine ⟨fun row' hrow' => ?_, fun row' hrow' => ?_, fun key' key'' row' hmem' hlookup' =>
    h.owner key' key'' row' (List.mem_of_mem_erase hmem') hlookup', h.size_le⟩
  · obtain ⟨hpending, hfailures, hle⟩ := h.objects row' hrow'
    have hcount := inFlightOn_finished row' outcome now hmem
    rw [FailureLimits.finish, Registry.modify_objects, recordedOn]
    by_cases heq : row' = row
    · subst heq
      rw [if_pos rfl] at hcount
      rw [if_pos rfl, if_pos rfl, ← hfailures]
      refine ⟨?_, rfl, ?_⟩
      · show (s.objects row').pending - 1 = _
        omega
      · show (((if outcome.failed then (s.objects row').failures + 1
          else if outcome.succeeded then 0 else (s.objects row').failures : ℕ)) : ℤ) +
            ((s.objects row').pending - 1) ≤ 5
        split
        · omega
        · split <;> omega
    · rw [if_neg (Ne.symm heq), Nat.add_zero] at hcount
      rw [if_neg heq, if_neg (Ne.symm heq), hcount]
      exact ⟨hpending, hfailures, hle⟩
  · obtain ⟨hflight, hrecorded⟩ := h.fresh row' hrow'
    have hcount := inFlightOn_finished row' outcome now hmem
    rw [recordedOn, if_neg (by have : s.next ≤ row' := hrow'; omega)]
    exact ⟨by omega, hrecorded⟩

end Pairs

/-! ## The limiters together -/

end LoginLimits
end Broker
end OpenstackPlatform
