import OpenstackPlatform.Library.Registry
import OpenstackPlatform.Library.TokenBucket
import OpenstackPlatform.Broker.AddressLimits

/-!
# Read limits

`ReadLimits` of `management/broker/class_reads.py`: token buckets for each person and each address,
and caps on the reads in flight.  A bucket that nobody uses for a minute is forgotten and comes back
full.  A read holds the two objects of its buckets, and gives them back when it ends.

* `reserve`, `finish`: the beginning and the end of a read, with `Budget` for the two parameters.
* `History`: the histories of the limiter, newest event first, with `outstanding` reads.
* `BucketInvariant`: what the tokens of a table say of the reads under its keys.  A forgotten bucket
  must have been full, so the budget has to refill within the minute.
* `Counted`: what the counters of a table say of the reads in flight, whatever the budget.
* `ReadCaps`, `ReadBounds`: what holds of every history.
* `limits_bound`: the two limiters together.
-/

namespace OpenstackPlatform
namespace Broker
namespace ClassReads

open Library TokenBucket

/-! ## The limiter -/

/-- The exception of the limiter. -/
inductive LimitError where
  | http (status : ℕ) (code message : String) (retryable : Bool)
  deriving DecidableEq

/-- `Bucket` -/
structure Bucket where
  tokens : ℚ
  updated : ℚ
  active : ℤ
  deriving DecidableEq

/-- The parameters of `ReadLimits`. -/
structure Budget where
  burst : ℚ
  rate : ℚ
  deriving DecidableEq

/-- An address gets twice what a person gets. -/
def Budget.double (budget : Budget) : Budget := ⟨2 * budget.burst, 2 * budget.rate⟩

/-- A budget that refills within the minute after which a bucket is forgotten. -/
structure Budget.Refills (budget : Budget) : Prop where
  burst_nonneg : 0 ≤ budget.burst
  burst_le : budget.burst ≤ 60 * budget.rate

/-- The parameters of `ClassReads` and of the app pages. -/
def classReads : Budget := ⟨10, 1⟩

def appReads : Budget := ⟨40, 4⟩

theorem classReads_refills : classReads.Refills :=
  ⟨by norm_num [classReads], by norm_num [classReads]⟩

theorem appReads_refills : appReads.Refills :=
  ⟨by norm_num [appReads], by norm_num [appReads]⟩

section Tables

variable {κ : Type} [DecidableEq κ]

/-- A table of buckets. -/
abbrev Buckets (κ : Type) [DecidableEq κ] := Registry κ Bucket

/-- Idle buckets leave a table. -/
def expire (buckets : Buckets κ) (now : ℚ) : Buckets κ :=
  buckets.sweep id fun item => decide (item.active = 0) && decide (60 ≤ now - item.updated)

/-- `setdefault` with a full bucket. -/
def bucketFor (budget : Budget) (buckets : Buckets κ) (key : κ) (now : ℚ) : Buckets κ × ℕ :=
  match buckets.table.lookup key with
  | some row => (buckets, row)
  | none => (buckets.create key ⟨budget.burst, now, 0⟩, buckets.next)

/-- A bucket gets the tokens of the time since it was used. -/
def refill (budget : Budget) (now : ℚ) (item : Bucket) : Bucket :=
  { item with
    tokens := min budget.burst (item.tokens + max 0 (now - item.updated) * budget.rate)
    updated := now }

/-- One table of `reserve` before the decision. -/
def prepare (budget : Budget) (buckets : Buckets κ) (key : κ) (now : ℚ) : Buckets κ × ℕ :=
  ((bucketFor budget buckets key now).1.modify (bucketFor budget buckets key now).2
    (refill budget now), (bucketFor budget buckets key now).2)

/-- A read takes a token and is in flight. -/
def take (item : Bucket) : Bucket :=
  { item with tokens := item.tokens - 1, active := item.active + 1 }

/-- A read ends. -/
def release (item : Bucket) : Bucket :=
  { item with active := item.active - 1 }

end Tables

section Limiter

variable {υ α : Type} [DecidableEq υ] [DecidableEq α]

/-- `ReadLimits` -/
structure ReadLimits (υ α : Type) [DecidableEq υ] [DecidableEq α] where
  users : Buckets υ
  addresses : Buckets α
  active : ℤ

/-- `ReadLimits.__init__` -/
def initial : ReadLimits υ α := ⟨Registry.empty ⟨0, 0, 0⟩, Registry.empty ⟨0, 0, 0⟩, 0⟩

/-- The refusal of `reserve`. -/
def limited : LimitError :=
  .http 429 "RATE_LIMITED" "Staff reads are temporarily limited." true

/-- A read that `reserve` let in: who reads, and the objects of the two buckets. -/
structure Read (υ α : Type) where
  user : υ
  address : α
  person : ℕ
  network : ℕ
  deriving DecidableEq

/-- The beginning of `ReadLimits.reserve`, with the rows of the person and the address. -/
def reserve (budget : Budget) (limits : ReadLimits υ α) (user : υ) (address : α) (now : ℚ) :
    ReadLimits υ α × Except LimitError (Read υ α) :=
  let users := expire limits.users now
  let addresses := expire limits.addresses now
  if (users.table.lookup user = none ∧ 100 ≤ users.size) ∨
      (addresses.table.lookup address = none ∧ 4096 ≤ addresses.size) then
    ({ limits with users, addresses }, .error limited)
  else
    let (users, person) := prepare budget users user now
    let (addresses, network) := prepare budget.double addresses address now
    if (users.objects person).tokens < 1 ∨ (addresses.objects network).tokens < 1 ∨
        12 ≤ (users.objects person).active ∨ 64 ≤ limits.active then
      ({ limits with users, addresses }, .error limited)
    else
      ({ users := users.modify person take
         addresses := addresses.modify network take
         active := limits.active + 1 }, .ok ⟨user, address, person, network⟩)

/-- The end of `ReadLimits.reserve`, when its context is left. -/
def finish (limits : ReadLimits υ α) (read : Read υ α) : ReadLimits υ α where
  users := limits.users.modify read.person release
  addresses := limits.addresses.modify read.network release
  active := limits.active - 1

/-! ## Histories -/

/-- What happens to the limiter. -/
inductive Event (υ α : Type) where
  | refused (user : υ) (address : α) (now : ℚ)
  | admitted (read : Read υ α) (now : ℚ)
  | ended (read : Read υ α) (now : ℚ)
  deriving DecidableEq

/-- The time of an event. -/
def Event.now : Event υ α → ℚ
  | .refused _ _ now => now
  | .admitted _ now => now
  | .ended _ now => now

/-- The reads in flight. -/
def outstanding : List (Event υ α) → List (Read υ α)
  | [] => []
  | .refused _ _ _ :: past => outstanding past
  | .admitted read _ :: past => read :: outstanding past
  | .ended read _ :: past => (outstanding past).erase read

/-- The times of some of the reads, newest first. -/
def readsWhere (p : Read υ α → Bool) : List (Event υ α) → List ℚ
  | [] => []
  | .admitted read now :: past => if p read then now :: readsWhere p past else readsWhere p past
  | .refused _ _ _ :: past => readsWhere p past
  | .ended _ _ :: past => readsWhere p past

/-- The times of the reads of a person, newest first. -/
def readsOf (user : υ) (past : List (Event υ α)) : List ℚ :=
  readsWhere (fun read => decide (read.user = user)) past

/-- The times of the reads from an address, newest first. -/
def readsFrom (address : α) (past : List (Event υ α)) : List ℚ :=
  readsWhere (fun read => decide (read.address = address)) past

/-- The clock has not passed a time. -/
def Late (past : List (Event υ α)) (now : ℚ) : Prop := ∀ e ∈ past, e.now ≤ now

instance (past : List (Event υ α)) (now : ℚ) : Decidable (Late past now) :=
  inferInstanceAs (Decidable (∀ e ∈ past, e.now ≤ now))

/-- The event that an answer of `reserve` is. -/
def Event.ofAnswer (user : υ) (address : α) (now : ℚ) :
    Except LimitError (Read υ α) → Event υ α
  | .ok read => .admitted read now
  | .error _ => .refused user address now

/-- One call of the limiter.  A read ends once. -/
inductive Step (budget : Budget) (past : List (Event υ α)) (s : ReadLimits υ α) :
    Event υ α → ReadLimits υ α → Prop where
  | reserve {user : υ} {address : α} {now : ℚ} (htime : Late past now) :
      Step budget past s (.ofAnswer user address now (reserve budget s user address now).2)
        (reserve budget s user address now).1
  | finish {read : Read υ α} {now : ℚ} (htime : Late past now)
      (hread : read ∈ outstanding past) :
      Step budget past s (.ended read now) (finish s read)

/-- The histories of the limiter, newest event first, with the state after them. -/
inductive History (budget : Budget) : List (Event υ α) → ReadLimits υ α → Prop where
  | start : History budget [] initial
  | step {past : List (Event υ α)} {s s' : ReadLimits υ α} {e : Event υ α}
      (h : History budget past s) (hstep : Step budget past s e s') :
      History budget (e :: past) s'

/-! ## Times and counts -/

section Times

variable {past : List (Event υ α)} {e : Event υ α} {now : ℚ}

omit [DecidableEq υ] [DecidableEq α] in
theorem Late.of_cons (h : Late (e :: past) now) : e.now ≤ now ∧ Late past now :=
  ⟨h e List.mem_cons_self, fun d hd => h d (List.mem_cons_of_mem e hd)⟩

omit [DecidableEq υ] [DecidableEq α] in
theorem le_of_mem_readsWhere {p : Read υ α → Bool} (h : Late past now) :
    ∀ t ∈ readsWhere p past, t ≤ now := by
  induction past with
  | nil => exact fun t ht => absurd ht List.not_mem_nil
  | cons e past ih =>
    obtain ⟨hnow, hlate⟩ := h.of_cons
    cases e with
    | refused _ _ _ => exact ih hlate
    | ended _ _ => exact ih hlate
    | admitted read now =>
      intro t ht
      rw [readsWhere] at ht
      split at ht
      · obtain rfl | ht := List.mem_cons.mp ht
        · exact hnow
        · exact ih hlate t ht
      · exact ih hlate t ht

theorem sorted_readsWhere {budget : Budget} {s : ReadLimits υ α} (h : History budget past s)
    (p : Read υ α → Bool) : (readsWhere p past).Pairwise (· ≥ ·) := by
  induction h with
  | start => exact .nil
  | step h hstep ih =>
    cases hstep with
    | finish _ _ => exact ih
    | @reserve user address now htime =>
      cases (reserve budget _ user address now).2 with
      | error _ => exact ih
      | ok read =>
        rw [Event.ofAnswer, readsWhere]
        split
        · exact List.pairwise_cons.mpr ⟨le_of_mem_readsWhere htime, ih⟩
        · exact ih

omit [DecidableEq υ] [DecidableEq α] in
/-- There is a time that the clock has not passed. -/
theorem exists_late : ∀ past : List (Event υ α), ∃ now, Late past now
  | [] => ⟨0, fun _ h => absurd h List.not_mem_nil⟩
  | e :: past => by
    obtain ⟨now, hlate⟩ := exists_late past
    refine ⟨max e.now now, fun d hd => ?_⟩
    obtain rfl | hd := List.mem_cons.mp hd
    · exact le_max_left _ _
    · exact le_trans (hlate d hd) (le_max_right _ _)

end Times

end Limiter

/-! ## Tables of buckets -/

section Tokens

variable {υ α κ : Type} [DecidableEq κ]

/-- What the tokens of a table of buckets say of the reads under its keys. -/
structure BucketInvariant (budget : Budget) (keyOf : Read υ α → κ) (past : List (Event υ α))
    (now : ℚ) (buckets : Buckets κ) : Prop where
  updated_le : ∀ key row, buckets.table.lookup key = some row → (buckets.objects row).updated ≤ now
  nonneg : ∀ key row, buckets.table.lookup key = some row → 0 ≤ (buckets.objects row).tokens
  level_eq : ∀ key row, buckets.table.lookup key = some row →
    level budget.burst budget.rate (readsWhere (fun read => decide (keyOf read = key)) past)
      (buckets.objects row).updated = (buckets.objects row).tokens
  full : ∀ key, buckets.table.lookup key = none →
    level budget.burst budget.rate (readsWhere (fun read => decide (keyOf read = key)) past) now =
      budget.burst
  conforming : ∀ key, Conforming budget.burst budget.rate
    (readsWhere (fun read => decide (keyOf read = key)) past)

theorem Budget.Refills.rate_nonneg {budget : Budget} (h : budget.Refills) : 0 ≤ budget.rate := by
  have hnonneg := h.burst_nonneg
  have hle := h.burst_le
  linarith

theorem Budget.Refills.double {budget : Budget} (h : budget.Refills) : budget.double.Refills := by
  have hnonneg := h.burst_nonneg
  have hle := h.burst_le
  refine ⟨?_, ?_⟩
  · show 0 ≤ 2 * budget.burst
    linarith
  · show 2 * budget.burst ≤ 60 * (2 * budget.rate)
    linarith

variable {budget : Budget} {keyOf : Read υ α → κ} {past : List (Event υ α)} {now : ℚ}
  {buckets : Buckets κ}

/-- Where a bucket is after another one was written. -/
theorem lookup_modify_cases {key key' : κ} {row row' : ℕ} {f : Bucket → Bucket}
    (h : buckets.table.lookup key = some row) (h' : buckets.table.lookup key' = some row') :
    (key' = key ∧ row' = row ∧ (buckets.modify row f).objects row' = f (buckets.objects row)) ∨
      (key' ≠ key ∧ (buckets.modify row f).objects row' = buckets.objects row') := by
  by_cases hkey : key' = key
  · subst hkey
    cases h.symm.trans h'
    exact .inl ⟨rfl, rfl, Registry.modify_objects_self _ _ _⟩
  · exact .inr ⟨hkey, Registry.modify_objects_of_ne h h' hkey⟩

/-- What is not forgotten is as it was. -/
theorem lookup_of_expire {key : κ} {row : ℕ}
    (h : (expire buckets now).table.lookup key = some row) :
    buckets.table.lookup key = some row ∧
      (expire buckets now).objects row = buckets.objects row := by
  have hold := ((Registry.lookup_sweep _ _ _ _ _).mp h).1
  exact ⟨hold, Registry.sweep_objects_of_lookup _ _ hold⟩

theorem lookup_bucketFor (key : κ) :
    (bucketFor budget buckets key now).1.table.lookup key =
      some (bucketFor budget buckets key now).2 := by
  unfold bucketFor
  split
  · rename_i row hlookup
    exact hlookup
  · rw [Registry.lookup_create, if_pos rfl]

namespace BucketInvariant

theorem start : BucketInvariant budget keyOf [] now (Registry.empty ⟨0, 0, 0⟩) := by
  have hnone : ∀ (key : κ) (row : ℕ),
      (Registry.empty (⟨0, 0, 0⟩ : Bucket)).table.lookup key ≠ some row := by
    intro key row
    rw [Registry.empty, AList.lookup_empty]
    exact nofun
  exact ⟨fun _ _ hrow => absurd hrow (hnone _ _), fun _ _ hrow => absurd hrow (hnone _ _),
    fun _ _ hrow => absurd hrow (hnone _ _), fun _ _ => rfl, fun _ => trivial⟩

/-- What a bucket has at a later time. -/
theorem level_later (h : BucketInvariant budget keyOf past now buckets)
    (hbudget : budget.Refills) {key : κ} {row : ℕ} (hlookup : buckets.table.lookup key = some row)
    {later : ℚ} (hle : now ≤ later) :
    level budget.burst budget.rate (readsWhere (fun read => decide (keyOf read = key)) past) later =
      min budget.burst ((buckets.objects row).tokens +
        budget.rate * (later - (buckets.objects row).updated)) := by
  have hupdated := (h.updated_le key row hlookup).trans hle
  rw [TokenBucket.level_later _ hbudget.rate_nonneg hupdated, h.level_eq key row hlookup]

theorem mono (h : BucketInvariant budget keyOf past now buckets) (hbudget : budget.Refills)
    {later : ℚ} (hle : now ≤ later) : BucketInvariant budget keyOf past later buckets where
  updated_le key row hlookup := (h.updated_le key row hlookup).trans hle
  nonneg := h.nonneg
  level_eq := h.level_eq
  full key hnone := by
    have hgain : 0 ≤ budget.rate * (later - now) :=
      mul_nonneg hbudget.rate_nonneg (sub_nonneg.mpr hle)
    rw [TokenBucket.level_later _ hbudget.rate_nonneg hle, h.full key hnone]
    exact min_eq_left (le_add_of_nonneg_right hgain)
  conforming := h.conforming

/-- A bucket that is forgotten was full. -/
theorem expire (h : BucketInvariant budget keyOf past now buckets) (hbudget : budget.Refills) :
    BucketInvariant budget keyOf past now (ClassReads.expire buckets now) := by
  refine ⟨fun key row hrow => ?_, fun key row hrow => ?_, fun key row hrow => ?_,
    fun key hnone => ?_, h.conforming⟩
  · obtain ⟨hold, hobject⟩ := lookup_of_expire hrow
    rw [hobject]
    exact h.updated_le key row hold
  · obtain ⟨hold, hobject⟩ := lookup_of_expire hrow
    rw [hobject]
    exact h.nonneg key row hold
  · obtain ⟨hold, hobject⟩ := lookup_of_expire hrow
    rw [hobject]
    exact h.level_eq key row hold
  · cases hold : buckets.table.lookup key with
    | none => exact h.full key hold
    | some row =>
      have hidle : 60 ≤ now - (buckets.objects row).updated := by
        by_contra hnot
        have hkeep : (ClassReads.expire buckets now).table.lookup key = some row :=
          (Registry.lookup_sweep _ _ _ _ _).mpr
            ⟨hold, Bool.and_eq_false_iff.mpr (.inr (decide_eq_false hnot))⟩
        rw [hkeep] at hnone
        cases hnone
      rw [h.level_later hbudget hold (le_refl now)]
      have hgain : budget.rate * 60 ≤ budget.rate * (now - (buckets.objects row).updated) :=
        mul_le_mul_of_nonneg_left hidle hbudget.rate_nonneg
      have hnonneg := h.nonneg key row hold
      have hburst := hbudget.burst_le
      exact min_eq_left (by linarith)

/-- The bucket of a key, new and full when there is none. -/
theorem bucketFor (h : BucketInvariant budget keyOf past now buckets) (hbudget : budget.Refills)
    (key : κ) :
    BucketInvariant budget keyOf past now (ClassReads.bucketFor budget buckets key now).1 := by
  unfold ClassReads.bucketFor
  split
  · exact h
  · rename_i hnone
    refine ⟨fun key' row hrow => ?_, fun key' row hrow => ?_, fun key' row hrow => ?_,
      fun key' hnone' => ?_, h.conforming⟩
    · obtain ⟨rfl, -, hobject⟩ | ⟨-, hrow, hobject⟩ := Registry.create_cases hrow
      · rw [hobject]
      · rw [hobject]
        exact h.updated_le key' row hrow
    · obtain ⟨rfl, -, hobject⟩ | ⟨-, hrow, hobject⟩ := Registry.create_cases hrow
      · rw [hobject]
        exact hbudget.burst_nonneg
      · rw [hobject]
        exact h.nonneg key' row hrow
    · obtain ⟨rfl, -, hobject⟩ | ⟨-, hrow, hobject⟩ := Registry.create_cases hrow
      · rw [hobject]
        exact h.full key' hnone
      · rw [hobject]
        exact h.level_eq key' row hrow
    · rw [Registry.lookup_create] at hnone'
      split at hnone'
      · cases hnone'
      · exact h.full key' hnone'

/-- A bucket is brought up to date. -/
theorem refill (h : BucketInvariant budget keyOf past now buckets) (hbudget : budget.Refills)
    {key : κ} {row : ℕ} (hlookup : buckets.table.lookup key = some row) :
    BucketInvariant budget keyOf past now (buckets.modify row (ClassReads.refill budget now)) ∧
      ((buckets.modify row (ClassReads.refill budget now)).objects row).tokens =
        level budget.burst budget.rate
          (readsWhere (fun read => decide (keyOf read = key)) past) now ∧
      ((buckets.modify row (ClassReads.refill budget now)).objects row).updated = now := by
  have hupdated := h.updated_le key row hlookup
  have hgain : max 0 (now - (buckets.objects row).updated) = now - (buckets.objects row).updated :=
    max_eq_right (sub_nonneg.mpr hupdated)
  have htokens : (ClassReads.refill budget now (buckets.objects row)).tokens =
      level budget.burst budget.rate
        (readsWhere (fun read => decide (keyOf read = key)) past) now := by
    rw [h.level_later hbudget hlookup (le_refl now), ClassReads.refill, hgain, mul_comm budget.rate]
  have hlevel : 0 ≤ (ClassReads.refill budget now (buckets.objects row)).tokens := by
    have hnonneg := h.nonneg key row hlookup
    have hmul := mul_nonneg (sub_nonneg.mpr hupdated) hbudget.rate_nonneg
    rw [ClassReads.refill, hgain]
    exact le_min hbudget.burst_nonneg (by linarith)
  refine ⟨⟨fun key' row' hrow => ?_, fun key' row' hrow => ?_, fun key' row' hrow => ?_, h.full,
    h.conforming⟩, ?_, ?_⟩
  · obtain ⟨rfl, rfl, hobject⟩ | ⟨-, hobject⟩ := lookup_modify_cases hlookup hrow
    · rw [hobject]
      exact le_refl now
    · rw [hobject]
      exact h.updated_le key' row' hrow
  · obtain ⟨rfl, rfl, hobject⟩ | ⟨-, hobject⟩ := lookup_modify_cases hlookup hrow
    · rw [hobject]
      exact hlevel
    · rw [hobject]
      exact h.nonneg key' row' hrow
  · obtain ⟨rfl, rfl, hobject⟩ | ⟨-, hobject⟩ := lookup_modify_cases hlookup hrow
    · rw [hobject]
      exact htokens.symm
    · rw [hobject]
      exact h.level_eq key' row' hrow
  · rw [Registry.modify_objects_self]
    exact htokens
  · rw [Registry.modify_objects_self]
    rfl

/-- A read takes a token of a bucket that is up to date. -/
theorem take (h : BucketInvariant budget keyOf past now buckets) {read : Read υ α} {row : ℕ}
    (hlookup : buckets.table.lookup (keyOf read) = some row)
    (hupdated : (buckets.objects row).updated = now)
    (htoken : 1 ≤ (buckets.objects row).tokens) :
    BucketInvariant budget keyOf (.admitted read now :: past) now
      (buckets.modify row ClassReads.take) := by
  have hlevel := h.level_eq (keyOf read) row hlookup
  rw [hupdated] at hlevel
  have htimes : ∀ key, key ≠ keyOf read →
      readsWhere (fun r => decide (keyOf r = key)) (.admitted read now :: past) =
        readsWhere (fun r => decide (keyOf r = key)) past :=
    fun key hkey => if_neg fun h => hkey (of_decide_eq_true h).symm
  have htimes' : readsWhere (fun r => decide (keyOf r = keyOf read)) (.admitted read now :: past) =
      now :: readsWhere (fun r => decide (keyOf r = keyOf read)) past :=
    if_pos (decide_eq_true rfl)
  have hnone : ∀ key, buckets.table.lookup key = none → key ≠ keyOf read := by
    rintro key hkey rfl
    rw [hlookup] at hkey
    cases hkey
  refine ⟨fun key row' hrow => ?_, fun key row' hrow => ?_, fun key row' hrow => ?_,
    fun key hkey => ?_, fun key => ?_⟩
  · obtain ⟨rfl, rfl, hobject⟩ | ⟨-, hobject⟩ := lookup_modify_cases hlookup hrow
    · rw [hobject]
      exact h.updated_le _ _ hlookup
    · rw [hobject]
      exact h.updated_le key row' hrow
  · obtain ⟨rfl, rfl, hobject⟩ | ⟨-, hobject⟩ := lookup_modify_cases hlookup hrow
    · rw [hobject]
      exact sub_nonneg.mpr htoken
    · rw [hobject]
      exact h.nonneg key row' hrow
  · obtain ⟨rfl, rfl, hobject⟩ | ⟨hkey, hobject⟩ := lookup_modify_cases hlookup hrow
    · rw [hobject, htimes']
      show level _ _ _ (buckets.objects row').updated = (buckets.objects row').tokens - 1
      rw [hupdated, level_event, hlevel]
    · rw [hobject, htimes key hkey]
      exact h.level_eq key row' hrow
  · rw [htimes key (hnone key hkey)]
    exact h.full key hkey
  · by_cases hkey : key = keyOf read
    · subst hkey
      rw [htimes']
      refine ⟨?_, h.conforming _⟩
      rw [hlevel]
      exact htoken
    · rw [htimes key hkey]
      exact h.conforming key

/-- A read ends. -/
theorem release (h : BucketInvariant budget keyOf past now buckets) {read : Read υ α} {row : ℕ}
    (hlookup : buckets.table.lookup (keyOf read) = some row) :
    BucketInvariant budget keyOf (.ended read now :: past) now
      (buckets.modify row ClassReads.release) := by
  refine ⟨fun key row' hrow => ?_, fun key row' hrow => ?_, fun key row' hrow => ?_, h.full,
    h.conforming⟩
  · obtain ⟨rfl, rfl, hobject⟩ | ⟨-, hobject⟩ := lookup_modify_cases hlookup hrow
    · rw [hobject]
      exact h.updated_le _ _ hlookup
    · rw [hobject]
      exact h.updated_le key row' hrow
  · obtain ⟨rfl, rfl, hobject⟩ | ⟨-, hobject⟩ := lookup_modify_cases hlookup hrow
    · rw [hobject]
      exact h.nonneg _ _ hlookup
    · rw [hobject]
      exact h.nonneg key row' hrow
  · obtain ⟨rfl, rfl, hobject⟩ | ⟨-, hobject⟩ := lookup_modify_cases hlookup hrow
    · rw [hobject]
      exact h.level_eq _ _ hlookup
    · rw [hobject]
      exact h.level_eq key row' hrow

theorem refused (h : BucketInvariant budget keyOf past now buckets) (user : υ) (address : α) :
    BucketInvariant budget keyOf (.refused user address now :: past) now buckets :=
  ⟨h.updated_le, h.nonneg, h.level_eq, h.full, h.conforming⟩

/-- One table before the decision. -/
theorem prepare (h : BucketInvariant budget keyOf past now buckets) (hbudget : budget.Refills)
    {key : κ} {row : ℕ} {buckets' : Buckets κ}
    (hprepare : ClassReads.prepare budget buckets key now = (buckets', row)) :
    BucketInvariant budget keyOf past now buckets' ∧
      (buckets'.objects row).tokens = level budget.burst budget.rate
        (readsWhere (fun read => decide (keyOf read = key)) past) now ∧
      (buckets'.objects row).updated = now := by
  obtain ⟨rfl, rfl⟩ := Prod.mk.inj hprepare
  exact (h.bucketFor hbudget key).refill hbudget (lookup_bucketFor key)

end BucketInvariant

end Tokens

section Counters

variable {υ α κ : Type} [DecidableEq υ] [DecidableEq α] [DecidableEq κ]

/-- The reads in flight hold the buckets of their keys, told which key and which row a read has, and
the counter of a bucket counts them.  This does not depend on the budget. -/
structure Counted (keyOf : Read υ α → κ) (rowOf : Read υ α → ℕ) (past : List (Event υ α))
    (buckets : Buckets κ) : Prop where
  held : ∀ read ∈ outstanding past, buckets.table.lookup (keyOf read) = some (rowOf read)
  active : ∀ key row, buckets.table.lookup key = some row →
    (buckets.objects row).active = (outstanding past).countP fun read => decide (keyOf read = key)

variable {budget : Budget} {keyOf : Read υ α → κ} {rowOf : Read υ α → ℕ} {past : List (Event υ α)}
  {now : ℚ} {buckets : Buckets κ}

namespace Counted

theorem start : Counted keyOf rowOf [] (Registry.empty ⟨0, 0, 0⟩) := by
  refine ⟨fun _ hr => absurd hr List.not_mem_nil, fun key row hrow => ?_⟩
  rw [Registry.empty, AList.lookup_empty] at hrow
  cases hrow

/-- A bucket that a read in flight holds is not forgotten. -/
theorem expire (h : Counted keyOf rowOf past buckets) (now : ℚ) :
    Counted keyOf rowOf past (ClassReads.expire buckets now) := by
  refine ⟨fun read hread => ?_, fun key row hrow => ?_⟩
  · have hheld := h.held read hread
    refine (Registry.lookup_sweep _ _ _ _ _).mpr ⟨hheld, ?_⟩
    have hactive := h.active (keyOf read) (rowOf read) hheld
    have hpos : 0 < (outstanding past).countP fun r => decide (keyOf r = keyOf read) :=
      List.countP_pos_iff.mpr ⟨read, hread, decide_eq_true rfl⟩
    have hne : ¬(buckets.objects (rowOf read)).active = 0 := by omega
    rw [Bool.and_eq_false_iff]
    exact .inl (decide_eq_false hne)
  · obtain ⟨hold, hobject⟩ := lookup_of_expire hrow
    rw [hobject]
    exact h.active key row hold

/-- A new bucket is held by no read. -/
theorem bucketFor (h : Counted keyOf rowOf past buckets) (budget : Budget) (key : κ) (now : ℚ) :
    Counted keyOf rowOf past (ClassReads.bucketFor budget buckets key now).1 := by
  unfold ClassReads.bucketFor
  split
  · exact h
  · rename_i hnone
    refine ⟨fun read hread => (Registry.create_of_lookup hnone (h.held read hread)).1,
      fun key' row hrow => ?_⟩
    obtain ⟨rfl, -, hobject⟩ | ⟨-, hrow, hobject⟩ := Registry.create_cases hrow
    · have hzero : ((outstanding past).countP fun read => decide (keyOf read = key')) = 0 := by
        refine List.countP_eq_zero.mpr fun read hread hkey => ?_
        have hheld := h.held read hread
        rw [of_decide_eq_true hkey, hnone] at hheld
        cases hheld
      rw [hobject, hzero]
      rfl
    · rw [hobject]
      exact h.active key' row hrow

theorem prepare (h : Counted keyOf rowOf past buckets) {key : κ} {row : ℕ}
    {buckets' : Buckets κ} (hprepare : ClassReads.prepare budget buckets key now = (buckets', row)) :
    Counted keyOf rowOf past buckets' ∧ buckets'.table.lookup key = some row := by
  obtain ⟨rfl, rfl⟩ := Prod.mk.inj hprepare
  have hbucket := h.bucketFor budget key now
  have hlookup : (ClassReads.bucketFor budget buckets key now).1.table.lookup key =
      some (ClassReads.bucketFor budget buckets key now).2 := lookup_bucketFor key
  refine ⟨⟨hbucket.held, fun key' row' hrow => ?_⟩, hlookup⟩
  have hactive := hbucket.active key' row' hrow
  obtain ⟨rfl, rfl, hobject⟩ | ⟨-, hobject⟩ := lookup_modify_cases hlookup hrow
  · rw [hobject]
    exact hactive
  · rw [hobject]
    exact hactive

/-- A read begins. -/
theorem take (h : Counted keyOf rowOf past buckets) {read : Read υ α}
    (hlookup : buckets.table.lookup (keyOf read) = some (rowOf read)) :
    Counted keyOf rowOf (.admitted read now :: past)
      (buckets.modify (rowOf read) ClassReads.take) := by
  refine ⟨fun r hr => ?_, fun key row hrow => ?_⟩
  · obtain rfl | hr := List.mem_cons.mp hr
    · exact hlookup
    · exact h.held r hr
  · rw [outstanding, List.countP_cons]
    obtain ⟨rfl, rfl, hobject⟩ | ⟨hkey, hobject⟩ := lookup_modify_cases hlookup hrow
    · rw [hobject, if_pos (decide_eq_true rfl)]
      show (buckets.objects (rowOf read)).active + 1 = _
      rw [h.active _ _ hlookup]
      rfl
    · have hother : ¬decide (keyOf read = key) = true :=
        fun heq => hkey (of_decide_eq_true heq).symm
      rw [hobject, if_neg hother, Nat.add_zero]
      exact h.active key row hrow

/-- A read ends. -/
theorem release (h : Counted keyOf rowOf past buckets) {read : Read υ α}
    (hread : read ∈ outstanding past) :
    Counted keyOf rowOf (.ended read now :: past)
      (buckets.modify (rowOf read) ClassReads.release) := by
  have hlookup := h.held read hread
  refine ⟨fun r hr => h.held r (List.mem_of_mem_erase hr), fun key row hrow => ?_⟩
  have hactive := h.active key row hrow
  have hcount := (List.perm_cons_erase hread).countP_eq fun r => decide (keyOf r = key)
  rw [List.countP_cons] at hcount
  show _ = (((outstanding past).erase read).countP fun r => decide (keyOf r = key) : ℤ)
  obtain ⟨rfl, rfl, hobject⟩ | ⟨hkey, hobject⟩ := lookup_modify_cases hlookup hrow
  · rw [if_pos (decide_eq_true rfl)] at hcount
    rw [hobject]
    show (buckets.objects (rowOf read)).active - 1 = _
    omega
  · have hother : ¬decide (keyOf read = key) = true :=
      fun heq => hkey (of_decide_eq_true heq).symm
    rw [if_neg hother] at hcount
    rw [hobject]
    omega

end Counted

end Counters

/-! ## The limiter -/

section Bounds

variable {υ α : Type} [DecidableEq υ] [DecidableEq α] {budget : Budget} {past : List (Event υ α)}
  {now : ℚ} {s : ReadLimits υ α}

/-- The reads of a person in flight. -/
def inFlight (user : υ) (past : List (Event υ α)) : ℕ :=
  (outstanding past).countP fun read => decide (read.user = user)

/-- What the counters of the limiter say of the reads in flight. -/
structure Counts (past : List (Event υ α)) (s : ReadLimits υ α) : Prop where
  users : Counted (·.user) (·.person) past s.users
  addresses : Counted (·.address) (·.network) past s.addresses
  active : s.active = (outstanding past).length
  inFlight_le : ∀ user, inFlight user past ≤ 12
  total_le : (outstanding past).length ≤ 64

/-- What the tokens of the limiter say of the reads. -/
structure Invariant (budget : Budget) (past : List (Event υ α)) (now : ℚ) (s : ReadLimits υ α) :
    Prop where
  users : BucketInvariant budget (·.user) past now s.users
  addresses : BucketInvariant budget.double (·.address) past now s.addresses

theorem Invariant.mono (h : Invariant budget past now s) (hbudget : budget.Refills) {later : ℚ}
    (hle : now ≤ later) : Invariant budget past later s :=
  ⟨h.users.mono hbudget hle, h.addresses.mono hbudget.double hle⟩

/-- What the limiter would do without a bound on its tables: nothing is forgotten. -/
def PlainAdmits (budget : Budget) (past : List (Event υ α)) (user : υ) (address : α) (now : ℚ) :
    Prop :=
  1 ≤ level budget.burst budget.rate (readsOf user past) now ∧
    1 ≤ level budget.double.burst budget.double.rate (readsFrom address past) now ∧
    inFlight user past < 12 ∧ (outstanding past).length < 64

/-- The tables have no room for a new person or a new address. -/
def AtCapacity (s : ReadLimits υ α) (user : υ) (address : α) (now : ℚ) : Prop :=
  ((expire s.users now).table.lookup user = none ∧ 100 ≤ (expire s.users now).size) ∨
    ((expire s.addresses now).table.lookup address = none ∧ 4096 ≤ (expire s.addresses now).size)

/-- The counters after `reserve`.  It lets a read in below the two caps only. -/
theorem Counts.reserve (h : Counts past s) (user : υ) (address : α) :
    Counts (.ofAnswer user address now (reserve budget s user address now).2 :: past)
      (reserve budget s user address now).1 := by
  have husers := h.users.expire now
  have haddresses := h.addresses.expire now
  unfold ClassReads.reserve
  dsimp only
  split
  · exact ⟨⟨husers.held, husers.active⟩, ⟨haddresses.held, haddresses.active⟩, h.active,
      h.inFlight_le, h.total_le⟩
  · cases hperson : ClassReads.prepare budget (expire s.users now) user now with
    | mk users person =>
    cases hnetwork : ClassReads.prepare budget.double (expire s.addresses now) address now with
    | mk addresses network =>
    obtain ⟨husers, hlookup⟩ := husers.prepare hperson
    obtain ⟨haddresses, hlookup'⟩ := haddresses.prepare hnetwork
    have hactive := husers.active user person hlookup
    dsimp only
    split
    · exact ⟨⟨husers.held, husers.active⟩, ⟨haddresses.held, haddresses.active⟩, h.active,
        h.inFlight_le, h.total_le⟩
    · rename_i hfree
      obtain ⟨hfew, htotal⟩ : (users.objects person).active < 12 ∧ s.active < 64 := by
        simp only [not_or, not_lt, not_le] at hfree
        exact hfree.2.2
      have htotal' := h.active
      refine ⟨?_, ?_, ?_, fun user' => ?_, ?_⟩
      · exact @Counted.take _ _ _ _ _ _ _ _ _ _ _ husers ⟨user, address, person, network⟩ hlookup
      · exact @Counted.take _ _ _ _ _ _ _ _ _ _ _ haddresses ⟨user, address, person, network⟩
          hlookup'
      · rw [Event.ofAnswer, outstanding, List.length_cons, htotal']
        rfl
      · rw [Event.ofAnswer, inFlight, outstanding, List.countP_cons]
        have hle := h.inFlight_le user'
        rw [inFlight] at hle
        by_cases huser : user = user'
        · subst huser
          rw [if_pos (decide_eq_true rfl)]
          omega
        · rw [if_neg fun heq => huser (of_decide_eq_true heq)]
          exact hle
      · rw [Event.ofAnswer, outstanding, List.length_cons]
        omega

/-- The counters after a read. -/
theorem Counts.finish (h : Counts past s) {read : Read υ α} (hread : read ∈ outstanding past) :
    Counts (.ended read now :: past) (finish s read) := by
  have hlength := List.length_erase_of_mem hread
  have hpos := List.length_pos_of_mem hread
  refine ⟨h.users.release hread, h.addresses.release hread, ?_, fun user => ?_, ?_⟩
  · show s.active - 1 = ((outstanding past).erase read).length
    have hactive := h.active
    omega
  · refine le_trans ?_ (h.inFlight_le user)
    exact (List.erase_sublist).countP_le
  · show ((outstanding past).erase read).length ≤ 64
    have hle := h.total_le
    omega

theorem counts (h : History budget past s) : Counts past s := by
  induction h with
  | start => exact ⟨.start, .start, rfl, fun _ => Nat.zero_le _, Nat.zero_le _⟩
  | step h hstep ih =>
    cases hstep with
    | reserve _ => exact ih.reserve _ _
    | finish _ hread => exact ih.finish hread

/-- What `reserve` does, and when. -/
theorem Invariant.reserve (h : Invariant budget past now s) (hcounts : Counts past s)
    (hbudget : budget.Refills) (user : υ) (address : α) :
    Invariant budget (.ofAnswer user address now (reserve budget s user address now).2 :: past) now
        (reserve budget s user address now).1 ∧
      ((∃ read, (ClassReads.reserve budget s user address now).2 = .ok read) ↔
        ¬AtCapacity s user address now ∧ PlainAdmits budget past user address now) := by
  have husers := h.users.expire hbudget
  have haddresses := h.addresses.expire hbudget.double
  have hcounted := hcounts.users.expire now
  have hcounted' := hcounts.addresses.expire now
  unfold ClassReads.reserve
  dsimp only
  split
  · rename_i hfull
    refine ⟨⟨husers.refused user address, haddresses.refused user address⟩, fun hok => ?_,
      fun hplain => absurd hfull hplain.1⟩
    obtain ⟨read, hok⟩ := hok
    cases hok
  · rename_i hroom
    cases hperson : ClassReads.prepare budget (expire s.users now) user now with
    | mk users person =>
    cases hnetwork : ClassReads.prepare budget.double (expire s.addresses now) address now with
    | mk addresses network =>
    obtain ⟨hcounted, hlookup⟩ := hcounted.prepare hperson
    obtain ⟨-, hlookup'⟩ := hcounted'.prepare hnetwork
    obtain ⟨husers, htokens, hupdated⟩ := husers.prepare hbudget hperson
    obtain ⟨haddresses, htokens', hupdated'⟩ := haddresses.prepare hbudget.double hnetwork
    have hactive := hcounted.active user person hlookup
    have htotal' := hcounts.active
    dsimp only
    split
    · rename_i hdenied
      refine ⟨⟨husers.refused user address, haddresses.refused user address⟩, fun hok => ?_,
        fun hplain => ?_⟩
      · obtain ⟨read, hok⟩ := hok
        cases hok
      · obtain ⟨-, hperson, hnetwork, hfew, htotal⟩ := hplain
        obtain hdenied | hdenied | hdenied | hdenied := hdenied
        · rw [htokens] at hdenied
          exact absurd hperson (not_le.mpr hdenied)
        · rw [htokens'] at hdenied
          exact absurd hnetwork (not_le.mpr hdenied)
        · rw [inFlight] at hfew
          omega
        · omega
    · rename_i hfree
      obtain ⟨htoken, htoken', hfew, htotal⟩ : 1 ≤ (users.objects person).tokens ∧
          1 ≤ (addresses.objects network).tokens ∧ (users.objects person).active < 12 ∧
          s.active < 64 := by
        simpa only [not_or, not_lt, not_le] using hfree
      have hcount : inFlight user past < 12 := by
        rw [inFlight]
        omega
      refine ⟨⟨?_, ?_⟩, fun _ => ⟨hroom, ?_, ?_, hcount, ?_⟩, fun _ => ⟨_, rfl⟩⟩
      · exact @BucketInvariant.take _ _ _ _ _ _ _ _ _ husers
          ⟨user, address, person, network⟩ _ hlookup hupdated htoken
      · exact @BucketInvariant.take _ _ _ _ _ _ _ _ _ haddresses
          ⟨user, address, person, network⟩ _ hlookup' hupdated' htoken'
      · rw [htokens] at htoken
        exact htoken
      · rw [htokens'] at htoken'
        exact htoken'
      · omega

theorem Invariant.finish (h : Invariant budget past now s) (hcounts : Counts past s)
    {read : Read υ α} (hread : read ∈ outstanding past) :
    Invariant budget (.ended read now :: past) now (finish s read) :=
  ⟨h.users.release (hcounts.users.held read hread),
    h.addresses.release (hcounts.addresses.held read hread)⟩

theorem invariant (hbudget : budget.Refills) (h : History budget past s) (hlate : Late past now) :
    Invariant budget past now s := by
  induction h generalizing now with
  | start => exact ⟨.start, .start⟩
  | step h hstep ih =>
    cases hstep with
    | @reserve user address now' htime =>
      have hinv := ((ih htime).reserve (counts h) hbudget user address).1
      refine hinv.mono hbudget ?_
      have hle := hlate.of_cons.1
      cases hanswer : (ClassReads.reserve budget _ user address now').2 with
      | ok read => rwa [hanswer] at hle
      | error _ => rwa [hanswer] at hle
    | finish htime hread =>
      exact ((ih htime).finish (counts h) hread).mono hbudget hlate.of_cons.1

/-- What holds of the reads in flight after every history, whatever the budget. -/
structure ReadCaps (past : List (Event υ α)) (s : ReadLimits υ α) : Prop where
  inFlight_le : ∀ user, inFlight user past ≤ 12
  total_le : (outstanding past).length ≤ 64
  /-- the counters count the reads in flight, so that without any no counter is up -/
  active : s.active = (outstanding past).length
  idle : outstanding past = [] → s.active = 0 ∧
    (∀ user row, s.users.table.lookup user = some row → (s.users.objects row).active = 0) ∧
    ∀ address row, s.addresses.table.lookup address = some row →
      (s.addresses.objects row).active = 0

/-- What holds of the tokens after every history, with a budget that refills. -/
structure ReadBounds (budget : Budget) (past : List (Event υ α)) (s : ReadLimits υ α) : Prop where
  /-- in a closed interval a person has at most `burst + rate * length` reads -/
  person : ∀ user left right, left ≤ right →
    (((readsOf user past).filter fun t => decide (left ≤ t ∧ t ≤ right)).length : ℚ) ≤
      budget.burst + budget.rate * (right - left)
  /-- and an address twice that -/
  network : ∀ address left right, left ≤ right →
    (((readsFrom address past).filter fun t => decide (left ≤ t ∧ t ≤ right)).length : ℚ) ≤
      2 * (budget.burst + budget.rate * (right - left))
  /-- what is forgotten makes no difference -/
  plain : ∀ user address now, Late past now →
    ((∃ read, (reserve budget s user address now).2 = .ok read) ↔
      ¬AtCapacity s user address now ∧ PlainAdmits budget past user address now)

theorem readCaps (h : History budget past s) : ReadCaps past s := by
  have hcounts := counts h
  refine ⟨hcounts.inFlight_le, hcounts.total_le, hcounts.active, fun hidle =>
    ⟨?_, fun user row hrow => ?_, fun address row hrow => ?_⟩⟩
  · rw [hcounts.active, hidle]
    rfl
  · rw [hcounts.users.active user row hrow, hidle]
    rfl
  · rw [hcounts.addresses.active address row hrow, hidle]
    rfl

theorem readBounds (hbudget : budget.Refills) (h : History budget past s) :
    ReadBounds budget past s := by
  obtain ⟨now, hlate⟩ := exists_late past
  have hinv := invariant hbudget h hlate
  refine ⟨fun user left right hle => ?_, fun address left right hle => ?_,
    fun user address now hlate => ?_⟩
  · exact length_within_le hbudget.burst_nonneg hbudget.rate_nonneg (sorted_readsWhere h _)
      (hinv.users.conforming user) hle
  · have hbound := length_within_le hbudget.double.burst_nonneg hbudget.double.rate_nonneg
      (sorted_readsWhere h _) (hinv.addresses.conforming address) hle
    have hdouble : budget.double.burst + budget.double.rate * (right - left) =
        2 * (budget.burst + budget.rate * (right - left)) := by
      show 2 * budget.burst + 2 * budget.rate * (right - left) = _
      ring
    rw [hdouble] at hbound
    exact hbound
  · exact ((invariant hbudget h hlate).reserve (counts h) hbudget user address).2

end Bounds

/-! ## The two limiters -/

section Limits

open AddressLimits SlidingWindow

/-- **Address and read limits.**  With room in its table, `AddressLimits` lets in what a limiter
without a bound on its table lets in, and bounds every window of a minute.  `ReadLimits` bounds the
reads in flight whatever its budget, and its counters are down when the reads have ended.  With a
budget that refills within a minute it bounds the reads of a person and of an address as well, and
what it forgets makes no difference.

The budget matters because a bucket comes back full: it must have been full when it was forgotten.
A bucket that is held by a read in flight is never forgotten, and this is why the counters need no
such condition. -/
theorem limits_bound {υ α : Type} [DecidableEq υ] [DecidableEq α] :
    (∀ (limits : AddressLimits.Action → ℕ) (calls : List (AddressLimits.Call α)),
      Clock calls → Room limits calls → ∀ key,
      admitted limits key calls = plain limits key calls ∧
        Bounded (limits key.1) 60 (admitted limits key calls)) ∧
    (∀ (budget : Budget) (past : List (Event υ α)) (s : ReadLimits υ α),
      History budget past s → ReadCaps past s) ∧
    ∀ budget : Budget, budget.Refills → ∀ (past : List (Event υ α)) (s : ReadLimits υ α),
      History budget past s → ReadBounds budget past s := by
  refine ⟨fun limits calls hclock hroom key => ?_, fun budget past s h => readCaps h,
    fun budget hbudget past s h => readBounds hbudget h⟩
  have heq := admitted_eq_plain hclock hroom key
  refine ⟨heq, ?_⟩
  rw [heq]
  exact bounded_plain hclock key

theorem History.reserved {υ α : Type} [DecidableEq υ] [DecidableEq α] {budget : Budget}
    {past : List (Event υ α)} {s : ReadLimits υ α} (h : History budget past s) {user : υ}
    {address : α} {now : ℚ} (hlate : Late past now) {read : Read υ α}
    (hanswer : (reserve budget s user address now).2 = .ok read) :
    History budget (.admitted read now :: past) (reserve budget s user address now).1 := by
  have hstep := h.step (@Step.reserve _ _ _ _ budget past s user address now hlate)
  rwa [hanswer] at hstep

/-- A person reads and is forgotten after a minute; another one and the first one then read at the
same time. -/
def sampleReads : List (Event ℕ ℕ) :=
  [.admitted ⟨0, 0, 2, 2⟩ 61, .admitted ⟨1, 1, 1, 1⟩ 60, .ended ⟨0, 0, 0, 0⟩ 0,
    .admitted ⟨0, 0, 0, 0⟩ 0]

theorem history_sampleReads : ∃ s, History classReads sampleReads s := by
  have hfirst : (reserve classReads initial 0 0 0).2 = .ok ⟨0, 0, 0, 0⟩ := by decide +kernel
  have hsecond : (reserve classReads (finish (reserve classReads initial 0 0 0).1 ⟨0, 0, 0, 0⟩)
      1 1 60).2 = .ok ⟨1, 1, 1, 1⟩ := by decide +kernel
  have hthird : (reserve classReads (reserve classReads
      (finish (reserve classReads initial 0 0 0).1 ⟨0, 0, 0, 0⟩) 1 1 60).1 0 0 61).2 =
        .ok ⟨0, 0, 2, 2⟩ := by decide +kernel
  have hstart : History classReads [] (initial : ReadLimits ℕ ℕ) := .start
  have hread := hstart.reserved (fun e he => absurd he List.not_mem_nil) hfirst
  have hended := hread.step (@Step.finish _ _ _ _ classReads _ _ ⟨0, 0, 0, 0⟩ 0 (by decide)
    List.mem_cons_self)
  exact ⟨_, (hended.reserved (by decide) hsecond).reserved (by decide) hthird⟩

/-- Two calls of one address a second apart, and the reads of two persons on class pages. -/
theorem limits_bound_once :
    Bounded 1 60 (admitted once (.start, 0) [⟨(.start, 0), 1⟩, ⟨(.start, 0), 0⟩]) ∧
      (outstanding sampleReads).length = 2 ∧
      ∃ s, History classReads sampleReads s ∧ ReadCaps sampleReads s ∧
        ReadBounds classReads sampleReads s := by
  have hroom : Room once [(⟨(.start, 0), 1⟩ : AddressLimits.Call ℕ), ⟨(.start, 0), 0⟩] := by
    refine ⟨fun hnone => absurd hnone ?_, fun _ keys _ hkeys => ?_, trivial⟩
    · decide +kernel
    · cases keys with
      | nil => exact Nat.zero_lt_succ _
      | cons key keys => exact absurd rfl (hkeys key List.mem_cons_self)
  have hclock : Clock [(⟨(.start, 0), 1⟩ : AddressLimits.Call ℕ), ⟨(.start, 0), 0⟩] := by
    refine List.pairwise_pair.mpr ?_
    norm_num
  have hlimits := @limits_bound ℕ ℕ _ _
  obtain ⟨s, hs⟩ := history_sampleReads
  exact ⟨(hlimits.1 once _ hclock hroom (.start, 0)).2, by decide, s, hs, hlimits.2.1 _ _ s hs,
    hlimits.2.2 classReads classReads_refills _ s hs⟩

/-- One read at once, and one more in two minutes. -/
def slow : Budget := ⟨1, 1 / 120⟩

/-- A read, and another after the bucket was forgotten. -/
def slowReads : List (Event ℕ ℕ) :=
  [.admitted ⟨0, 0, 1, 1⟩ 60, .ended ⟨0, 0, 0, 0⟩ 0, .admitted ⟨0, 0, 0, 0⟩ 0]

/-- The row of an address is evicted by a crowd, and a call too many is let in; a bucket that does
not refill within a minute comes back full. -/
theorem crowd_admits :
    (Clock (⟨(.start, 0), 0⟩ :: crowd 4097) ∧
      ¬Bounded (once .start) 60 (admitted once (.start, 0) (⟨(.start, 0), 0⟩ :: crowd 4097))) ∧
    (∃ s, History slow slowReads s) ∧
      slow.burst + slow.rate * (60 - 0) <
        ((readsOf 0 slowReads).filter fun t => decide (0 ≤ t ∧ t ≤ 60)).length := by
  refine ⟨⟨?_, ?_⟩, ?_, ?_⟩
  · obtain ⟨hclock, hzero⟩ := clock_crowd 4097
    refine List.pairwise_cons.mpr ⟨fun past hpast => ?_, hclock⟩
    rw [hzero past hpast]
  · intro hbounded
    have htwo : admitted once (.start, 0) (⟨(.start, 0), 0⟩ :: crowd 4097) = [0, 0] := by
      have hlet : (check once (visitsAfter once (crowd 4097)) (.start, 0) 0).2 = .ok () := by
        rw [check_of_lookup_none evicted_crowd]
      rw [admitted, admitted_crowd 4096, if_pos ⟨rfl, hlet⟩]
      rfl
    rw [htwo] at hbounded
    have hone := hbounded 0
    rw [within] at hone
    norm_num [once] at hone
  · have hfirst : (reserve slow initial 0 0 0).2 = .ok ⟨0, 0, 0, 0⟩ := by decide +kernel
    have hsecond : (reserve slow (finish (reserve slow initial 0 0 0).1 ⟨0, 0, 0, 0⟩) 0 0 60).2 =
        .ok ⟨0, 0, 1, 1⟩ := by decide +kernel
    have hstart : History slow [] (initial : ReadLimits ℕ ℕ) := .start
    have hread := hstart.reserved (fun e he => absurd he List.not_mem_nil) hfirst
    have hended := hread.step (@Step.finish _ _ _ _ slow _ _ ⟨0, 0, 0, 0⟩ 0 ?_ List.mem_cons_self)
    · exact ⟨_, hended.reserved (by decide) hsecond⟩
    · decide
  · decide +kernel

end Limits

end ClassReads
end Broker
end OpenstackPlatform
