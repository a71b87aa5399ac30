import Mathlib.Algebra.Order.Ring.Rat
import Mathlib.Logic.Function.Basic
import Mathlib.Tactic.Linarith
import OpenstackPlatform.Library.Heap
import OpenstackPlatform.Library.Run
import OpenstackPlatform.Library.Table

/-!
# Shared probes

`_SingleFlight.run` of `controller/api.py`, called by any number of threads.  The sections under
the guard are atomic; a thread may be stopped between any two of its steps while the others go on,
so the end of a probe, the section that follows it and the event that wakes the waiting calls are
three steps.  The clock that the sections read never goes back.

* `State`, `Step`: the flights and the calls, and what one thread does at a time.
* `Sound`, `sound_step`: what holds in every state.
* `Origin`, `recorded_step`: where a shared value comes from.
* `single_probes`, `shared_probes`: the main results.
-/

namespace OpenstackPlatform
namespace Controller
namespace SingleFlight

open Library

/-! ## The object -/

/-- `_Flight`, with the key that it is stored under and the time of the call that made it. -/
structure Flight (κ ρ : Type) where
  key : κ
  started : ℚ
  /-- `done` is set -/
  done : Bool
  result : Option ρ
  finishedAt : Option ℚ

/-- The variables of a call: `key`, `now` and `flight`. -/
structure Call (κ : Type) where
  key : κ
  now : ℚ
  flight : ℕ

/-- Where a call is: the first three are stages of the leader of a flight. -/
inductive Stage where
  | probing
  /-- in `finally`, before its section -/
  | settling (raised : Bool)
  /-- before `done.set()` -/
  | signalling (raised : Bool)
  | waiting (limit : ℚ)
  /-- before the last test of `flight.result` -/
  | reading
  deriving DecidableEq

def Stage.leads : Stage → Bool
  | .probing | .settling _ | .signalling _ => true
  | .waiting _ | .reading => false

variable {κ ρ ι : Type}

/-- The flights that were made, `_flights`, and the calls of the threads. -/
structure State (κ ρ ι : Type) where
  clock : ℚ
  heap : List (Flight κ ρ)
  flights : Table κ ℕ
  thread : ι → Option (Call κ × Stage)

/-- Nothing was called yet. -/
def State.initial (clock : ℚ) : State κ ρ ι := ⟨clock, [], ∅, fun _ => none⟩

/-- A step of the thread `i`. -/
inductive Label (κ ρ ι : Type) where
  /-- the first section of `run` -/
  | enter (i : ι) (key : κ) (now wait : ℚ)
  /-- `probe` returns a value, or raises -/
  | probed (i : ι) (outcome : Option ρ)
  /-- the section of `finally` -/
  | settle (i : ι) (now : ℚ)
  /-- `done.set()`; the exception of the probe is raised after it -/
  | signal (i : ι)
  | wake (i : ι)
  /-- `shared live observation did not finish` -/
  | expire (i : ι) (now : ℚ)
  /-- the call returns a value, or raises `shared live observation failed` -/
  | finish (i : ι) (outcome : Option ρ)

def Label.caller : Label κ ρ ι → ι
  | .enter i .. | .probed i _ | .settle i _ | .signal i | .wake i | .expire i _ | .finish i _ => i

section Threads

variable [DecidableEq ι]

/-- The call of the thread `i` is at another stage, or over. -/
def State.goto (s : State κ ρ ι) (i : ι) (x : Option (Call κ × Stage)) : State κ ρ ι :=
  { s with thread := Function.update s.thread i x }

theorem State.goto_self (s : State κ ρ ι) (i : ι) (x : Option (Call κ × Stage)) :
    (s.goto i x).thread i = x :=
  Function.update_self ..

theorem State.goto_of_ne {s : State κ ρ ι} {i j : ι} {x : Option (Call κ × Stage)} (h : j ≠ i) :
    (s.goto i x).thread j = s.thread j :=
  Function.update_of_ne h ..

end Threads

section Steps

variable [DecidableEq κ]

/-- The flight is finished and its result is no longer shared. -/
def expired (reuse now : ℚ) (heap : List (Flight κ ρ)) (f : ℕ) : Bool :=
  ((heap[f]?).bind (·.finishedAt)).any fun t => decide (reuse ≤ now - t)

/-- `_flights` without the expired flights. -/
def State.purge (reuse now : ℚ) (s : State κ ρ ι) : Table κ ℕ :=
  s.flights.deleteWhere fun _ f => expired reuse now s.heap f

/-- The section of `finally`: a flight without a result is not shared. -/
def State.settle (s : State κ ρ ι) (c : Call κ) (fl : Flight κ ρ) (now : ℚ) : State κ ρ ι :=
  { s with
    clock := now
    heap := s.heap.set c.flight { fl with finishedAt := some now }
    flights :=
      if fl.result.isNone ∧ s.flights.lookup c.key = some c.flight then s.flights.erase c.key
      else s.flights }

variable [DecidableEq ι]

/-- The first section of `run`: the thread joins a flight, or makes one and leads it. -/
def State.enter (reuse : ℚ) (s : State κ ρ ι) (i : ι) (key : κ) (now wait : ℚ) : State κ ρ ι :=
  match (s.purge reuse now).lookup key with
  | some f =>
    State.goto { s with clock := now, flights := s.purge reuse now } i
      (some (⟨key, now, f⟩, .waiting (now + wait)))
  | none =>
    State.goto
      { s with
        clock := now
        heap := s.heap ++ [⟨key, now, false, none, none⟩]
        flights := (s.purge reuse now).insert key s.heap.length } i
      (some (⟨key, now, s.heap.length⟩, .probing))

/-- One step of one thread. -/
inductive Step (reuse : ℚ) : State κ ρ ι → Label κ ρ ι → State κ ρ ι → Prop where
  | enter {s : State κ ρ ι} {i : ι} {key : κ} {now wait : ℚ} (free : s.thread i = none)
      (clock : s.clock ≤ now) :
      Step reuse s (.enter i key now wait) (s.enter reuse i key now wait)
  | probed {s : State κ ρ ι} {i : ι} {c : Call κ} {fl : Flight κ ρ} {outcome : Option ρ}
      (stage : s.thread i = some (c, .probing)) (flight : s.heap[c.flight]? = some fl) :
      Step reuse s (.probed i outcome)
        ({ s with heap := s.heap.set c.flight { fl with result := outcome } }.goto i
          (some (c, .settling outcome.isNone)))
  | settle {s : State κ ρ ι} {i : ι} {c : Call κ} {fl : Flight κ ρ} {raised : Bool} {now : ℚ}
      (stage : s.thread i = some (c, .settling raised)) (flight : s.heap[c.flight]? = some fl)
      (clock : s.clock ≤ now) :
      Step reuse s (.settle i now) ((s.settle c fl now).goto i (some (c, .signalling raised)))
  | signal {s : State κ ρ ι} {i : ι} {c : Call κ} {fl : Flight κ ρ} {raised : Bool}
      (stage : s.thread i = some (c, .signalling raised))
      (flight : s.heap[c.flight]? = some fl) :
      Step reuse s (.signal i)
        ({ s with heap := s.heap.set c.flight { fl with done := true } }.goto i
          (if raised then none else some (c, .reading)))
  | wake {s : State κ ρ ι} {i : ι} {c : Call κ} {fl : Flight κ ρ} {limit : ℚ}
      (stage : s.thread i = some (c, .waiting limit)) (flight : s.heap[c.flight]? = some fl)
      (done : fl.done = true) :
      Step reuse s (.wake i) (s.goto i (some (c, .reading)))
  | expire {s : State κ ρ ι} {i : ι} {c : Call κ} {limit now : ℚ}
      (stage : s.thread i = some (c, .waiting limit)) (clock : s.clock ≤ now)
      (late : limit ≤ now) :
      Step reuse s (.expire i now) ({ s with clock := now }.goto i none)
  | finish {s : State κ ρ ι} {i : ι} {c : Call κ} {fl : Flight κ ρ}
      (stage : s.thread i = some (c, .reading)) (flight : s.heap[c.flight]? = some fl) :
      Step reuse s (.finish i fl.result) (s.goto i none)

section Enter

variable {reuse : ℚ} {s : State κ ρ ι} {i : ι} {key : κ} {now wait : ℚ}

/-- The call joins the flight of its key. -/
theorem Step.join {f : ℕ} (free : s.thread i = none) (clock : s.clock ≤ now)
    (h : (s.purge reuse now).lookup key = some f) :
    Step reuse s (.enter i key now wait)
      (State.goto { s with clock := now, flights := s.purge reuse now } i
        (some (⟨key, now, f⟩, .waiting (now + wait)))) := by
  have hstep : Step reuse s (.enter i key now wait) _ := .enter free clock
  simp only [State.enter, h] at hstep
  exact hstep

/-- The call makes a flight and leads it. -/
theorem Step.lead (free : s.thread i = none) (clock : s.clock ≤ now)
    (h : (s.purge reuse now).lookup key = none) :
    Step reuse s (.enter i key now wait)
      (State.goto { s with
        clock := now
        heap := s.heap ++ [⟨key, now, false, none, none⟩]
        flights := (s.purge reuse now).insert key s.heap.length } i
        (some (⟨key, now, s.heap.length⟩, .probing))) := by
  have hstep : Step reuse s (.enter i key now wait) _ := .enter free clock
  simp only [State.enter, h] at hstep
  exact hstep

end Enter

end Steps

/-! ## What holds in every state -/

/-- What a call knows of its flight. -/
def StageHolds (reuse : ℚ) (c : Call κ) (fl : Flight κ ρ) : Stage → Prop
  | .probing => fl.finishedAt = none ∧ fl.result = none ∧ fl.started = c.now
  | .settling raised => fl.finishedAt = none ∧ fl.result.isNone = raised
  | .signalling raised => (∃ t, fl.finishedAt = some t ∧ c.now ≤ t) ∧ fl.result.isNone = raised
  | .waiting _ => ∀ t, fl.finishedAt = some t → c.now - t < reuse
  | .reading => ∃ t, fl.finishedAt = some t ∧ c.now - t < reuse

/-- One flight was over when another one of its key was made; if it has a result, the result was no
longer shared. -/
structure Flight.Before (reuse : ℚ) (fl gl : Flight κ ρ) (t : ℚ) : Prop where
  finishedAt : fl.finishedAt = some t
  le : t ≤ gl.started
  reuse_le : fl.result.isSome = true → t + reuse ≤ gl.started

section Invariant

variable [DecidableEq κ]

/-- The flights. -/
structure FlightsSound (reuse clock : ℚ) (heap : List (Flight κ ρ)) (flights : Table κ ℕ) :
    Prop where
  listed : ∀ key f, flights.lookup key = some f →
    ∃ fl : Flight κ ρ, heap[f]? = some fl ∧ fl.key = key ∧
      (fl.finishedAt.isSome = true → fl.result.isSome = true)
  unfinished : ∀ (f : ℕ) (fl : Flight κ ρ), heap[f]? = some fl → fl.finishedAt = none →
    flights.lookup fl.key = some f ∧ fl.done = false
  started : ∀ (f : ℕ) (fl : Flight κ ρ), heap[f]? = some fl → fl.started ≤ clock
  finished : ∀ (f : ℕ) (fl : Flight κ ρ) t, heap[f]? = some fl → fl.finishedAt = some t →
    fl.started ≤ t ∧ t ≤ clock
  purged : ∀ (f : ℕ) (fl : Flight κ ρ) t, heap[f]? = some fl → fl.finishedAt = some t →
    fl.result.isSome = true → flights.lookup fl.key ≠ some f → t + reuse ≤ clock
  spaced : ∀ (f g : ℕ) (fl gl : Flight κ ρ), f < g → heap[f]? = some fl → heap[g]? = some gl →
    fl.key = gl.key → ∃ t, fl.Before reuse gl t

/-- A call and its flight. -/
structure CallHolds (reuse : ℚ) (s : State κ ρ ι) (c : Call κ) (stage : Stage) (fl : Flight κ ρ) :
    Prop where
  flight : s.heap[c.flight]? = some fl
  key : fl.key = c.key
  now : c.now ≤ s.clock
  stage : StageHolds reuse c fl stage

/-- What holds in every state. -/
structure Sound (reuse : ℚ) (s : State κ ρ ι) : Prop where
  flights : FlightsSound reuse s.clock s.heap s.flights
  held : ∀ i c stage, s.thread i = some (c, stage) → ∃ fl, CallHolds reuse s c stage fl
  alone : ∀ i j c d stage stage', s.thread i = some (c, stage) → s.thread j = some (d, stage') →
    stage.leads = true → stage'.leads = true → c.flight = d.flight → i = j
  led : ∀ (f : ℕ) (fl : Flight κ ρ), s.heap[f]? = some fl → fl.done = false →
    ∃ i c stage, s.thread i = some (c, stage) ∧ stage.leads = true ∧ c.flight = f

theorem sound_initial (reuse clock : ℚ) : Sound reuse (State.initial clock : State κ ρ ι) where
  flights := {
    listed := fun _ _ h => nomatch h
    unfinished := fun _ _ h => nomatch h
    started := fun _ _ h => nomatch h
    finished := fun _ _ _ h => nomatch h
    purged := fun _ _ _ h => nomatch h
    spaced := fun _ _ _ _ _ h => nomatch h
  }
  held := fun _ _ _ h => nomatch h
  alone := fun _ _ _ _ _ _ h => nomatch h
  led := fun _ _ h => nomatch h

end Invariant

/-! ## Steps of the flights -/

section Flights

variable [DecidableEq κ] {reuse clock now : ℚ} {heap : List (Flight κ ρ)} {flights : Table κ ℕ}

theorem FlightsSound.purge (h : FlightsSound reuse clock heap flights) (hclock : clock ≤ now) :
    FlightsSound reuse now heap (flights.deleteWhere fun _ f => expired reuse now heap f) where
  listed := by
    intro key f hf
    exact h.listed key f (Table.lookup_deleteWhere.mp hf).1
  unfinished := by
    intro f fl hfl hnone
    obtain ⟨hlookup, hdone⟩ := h.unfinished f fl hfl hnone
    refine ⟨Table.lookup_deleteWhere.mpr ⟨hlookup, ?_⟩, hdone⟩
    rw [expired, hfl, Option.bind_some, hnone]
    rfl
  started := fun f fl hfl => (h.started f fl hfl).trans hclock
  finished := by
    intro f fl t hfl ht
    obtain ⟨hstarted, hle⟩ := h.finished f fl t hfl ht
    exact ⟨hstarted, hle.trans hclock⟩
  purged := by
    intro f fl t hfl ht hresult hpurged
    by_cases hlookup : flights.lookup fl.key = some f
    · by_contra hlt
      refine hpurged (Table.lookup_deleteWhere.mpr ⟨hlookup, ?_⟩)
      rw [expired, hfl, Option.bind_some, ht, Option.any_some, decide_eq_false_iff_not]
      intro hle
      exact hlt (by linarith)
    · exact (h.purged f fl t hfl ht hresult hlookup).trans hclock
  spaced := h.spaced

theorem FlightsSound.mono (h : FlightsSound reuse clock heap flights) (hclock : clock ≤ now) :
    FlightsSound reuse now heap flights where
  listed := h.listed
  unfinished := h.unfinished
  started := fun f fl hfl => (h.started f fl hfl).trans hclock
  finished := by
    intro f fl t hfl ht
    obtain ⟨hstarted, hle⟩ := h.finished f fl t hfl ht
    exact ⟨hstarted, hle.trans hclock⟩
  purged := fun f fl t hfl ht hresult hpurged =>
    (h.purged f fl t hfl ht hresult hpurged).trans hclock
  spaced := h.spaced

/-- A flight is made when its key has none. -/
theorem FlightsSound.made (h : FlightsSound reuse now heap flights) {key : κ}
    (hkey : flights.lookup key = none) :
    FlightsSound reuse now (heap ++ [⟨key, now, false, none, none⟩])
      (flights.insert key heap.length) where
  listed := by
    intro key' f hf
    rw [Table.lookup_insert_ite] at hf
    split at hf
    · rename_i heq
      cases hf
      exact ⟨_, List.getElem?_concat_length .., heq.symm, fun hsome => absurd hsome (by simp)⟩
    · obtain ⟨fl, hfl, hrest⟩ := h.listed key' f hf
      exact ⟨fl, List.getElem?_append_left (List.getElem?_eq_some_iff.mp hfl).1 ▸ hfl, hrest⟩
  unfinished := by
    intro f fl hfl hnone
    rw [Table.lookup_insert_ite]
    obtain ⟨rfl, rfl⟩ | ⟨-, hfl⟩ := getElem?_of_append hfl
    · exact ⟨if_pos rfl, rfl⟩
    · obtain ⟨hlookup, hdone⟩ := h.unfinished f fl hfl hnone
      rw [if_neg, hlookup]
      · exact ⟨rfl, hdone⟩
      · intro heq
        rw [heq, hkey] at hlookup
        cases hlookup
  started := by
    intro f fl hfl
    obtain ⟨-, rfl⟩ | ⟨-, hfl⟩ := getElem?_of_append hfl
    · exact le_rfl
    · exact h.started f fl hfl
  finished := by
    intro f fl t hfl ht
    obtain ⟨-, rfl⟩ | ⟨-, hfl⟩ := getElem?_of_append hfl
    · cases ht
    · exact h.finished f fl t hfl ht
  purged := by
    intro f fl t hfl ht hresult hpurged
    obtain ⟨-, rfl⟩ | ⟨hlt, hfl⟩ := getElem?_of_append hfl
    · cases ht
    · refine h.purged f fl t hfl ht hresult fun hlookup => hpurged ?_
      rw [Table.lookup_insert_ite, if_neg, hlookup]
      intro heq
      rw [heq, hkey] at hlookup
      cases hlookup
  spaced := by
    intro f g fl gl hlt hfl hgl heq
    obtain ⟨rfl, rfl⟩ | ⟨hg, hgl⟩ := getElem?_of_append hgl
    · obtain ⟨rfl, -⟩ | ⟨-, hfl⟩ := getElem?_of_append hfl
      · exact absurd hlt (lt_irrefl _)
      · have hunlisted : flights.lookup fl.key ≠ some f := by
          rw [heq, hkey]
          exact fun hn => nomatch hn
        cases ht : fl.finishedAt with
        | none => exact absurd (h.unfinished f fl hfl ht).1 hunlisted
        | some t =>
          exact ⟨t, ht, (h.finished f fl t hfl ht).2, fun hresult =>
            h.purged f fl t hfl ht hresult hunlisted⟩
    · obtain ⟨rfl, rfl⟩ | ⟨-, hfl⟩ := getElem?_of_append hfl
      · omega
      · exact h.spaced f g fl gl hlt hfl hgl heq

/-- A flight is written.  The table may lose it. -/
theorem FlightsSound.write (h : FlightsSound reuse clock heap flights) (hclock : clock ≤ now)
    {f : ℕ} {fl fl' : Flight κ ρ} {flights' : Table κ ℕ} (hfl : heap[f]? = some fl)
    (hkey : fl'.key = fl.key) (hstarted : fl'.started = fl.started)
    (hsub : ∀ key g, flights'.lookup key = some g → flights.lookup key = some g)
    (hkeep : ∀ key g, g ≠ f → flights.lookup key = some g → flights'.lookup key = some g)
    (hlisted : flights'.lookup fl.key = some f → fl'.finishedAt.isSome = true →
      fl'.result.isSome = true)
    (hunfinished : fl'.finishedAt = none → flights'.lookup fl.key = some f ∧ fl'.done = false)
    (hfinished : ∀ t, fl'.finishedAt = some t → fl.started ≤ t ∧ t ≤ now)
    (hpurged : ∀ t, fl'.finishedAt = some t → fl'.result.isSome = true →
      flights'.lookup fl.key ≠ some f → t + reuse ≤ now)
    (hsame : ∀ t, fl.finishedAt = some t → fl'.finishedAt = some t ∧ fl'.result = fl.result) :
    FlightsSound reuse now (heap.set f fl') flights' where
  listed := by
    intro key g hg
    obtain ⟨gl, hgl, hgkey, hresult⟩ := h.listed key g (hsub key g hg)
    by_cases heq : g = f
    · subst heq
      rw [hfl] at hgl
      cases hgl
      refine ⟨fl', getElem?_set_same hfl, hkey.trans hgkey, hlisted ?_⟩
      rw [hgkey]
      exact hg
    · exact ⟨gl, (getElem?_set_other heq).trans hgl, hgkey, hresult⟩
  unfinished := by
    intro g gl hgl hnone
    obtain ⟨rfl, rfl⟩ | ⟨hne, hgl⟩ := getElem?_of_set hgl
    · rw [hkey]
      exact hunfinished hnone
    · obtain ⟨hlookup, hdone⟩ := h.unfinished g gl hgl hnone
      exact ⟨hkeep _ g hne hlookup, hdone⟩
  started := by
    intro g gl hgl
    obtain ⟨rfl, rfl⟩ | ⟨-, hgl⟩ := getElem?_of_set hgl
    · rw [hstarted]
      exact (h.started g fl hfl).trans hclock
    · exact (h.started g gl hgl).trans hclock
  finished := by
    intro g gl t hgl ht
    obtain ⟨rfl, rfl⟩ | ⟨-, hgl⟩ := getElem?_of_set hgl
    · rw [hstarted]
      exact hfinished t ht
    · obtain ⟨hle, hle'⟩ := h.finished g gl t hgl ht
      exact ⟨hle, hle'.trans hclock⟩
  purged := by
    intro g gl t hgl ht hresult hunlisted
    obtain ⟨rfl, rfl⟩ | ⟨hne, hgl⟩ := getElem?_of_set hgl
    · rw [hkey] at hunlisted
      exact hpurged t ht hresult hunlisted
    · have hle := h.purged g gl t hgl ht hresult fun hlookup => hunlisted (hkeep _ g hne hlookup)
      exact hle.trans hclock
  spaced := by
    intro a b al bl hlt hal hbl heq
    obtain ⟨rfl, rfl⟩ | ⟨hne, hal'⟩ := getElem?_of_set hal
    · obtain ⟨rfl, -⟩ | ⟨-, hbl'⟩ := getElem?_of_set hbl
      · exact absurd hlt (lt_irrefl _)
      · obtain ⟨t, ht, hle, hreuse⟩ := h.spaced a b fl bl hlt hfl hbl' (hkey.symm.trans heq)
        obtain ⟨ht', hresult⟩ := hsame t ht
        refine ⟨t, ht', hle, fun hsome => hreuse ?_⟩
        rw [← hresult]
        exact hsome
    · obtain ⟨rfl, rfl⟩ | ⟨-, hbl'⟩ := getElem?_of_set hbl
      · obtain ⟨t, ht, hle, hreuse⟩ := h.spaced a b al fl hlt hal' hfl (heq.trans hkey)
        rw [← hstarted] at hle hreuse
        exact ⟨t, ht, hle, hreuse⟩
      · exact h.spaced a b al bl hlt hal' hbl' heq

end Flights

/-! ## Steps of the calls -/

section Calls

variable [DecidableEq κ] [DecidableEq ι] {reuse now : ℚ} {s : State κ ρ ι} {i : ι} {c : Call κ}
  {stage : Stage} {fl : Flight κ ρ}

/-- A call that does not lead a flight goes on, or a new call joins one. -/
theorem Sound.follow (h : Sound reuse s)
    (hi : ∀ c stage, s.thread i = some (c, stage) → stage.leads = false) (hclock : s.clock ≤ now)
    {flights : Table κ ℕ} (hflights : FlightsSound reuse now s.heap flights)
    {x : Option (Call κ × Stage)} (hx : ∀ c stage, x = some (c, stage) → stage.leads = false ∧
      ∃ fl, CallHolds reuse { s with clock := now } c stage fl) :
    Sound reuse ({ s with clock := now, flights := flights }.goto i x) where
  flights := hflights
  held := by
    intro j d stage hj
    by_cases hji : j = i
    · rw [hji, State.goto_self] at hj
      obtain ⟨-, fl, hfl⟩ := hx d stage hj
      exact ⟨fl, hfl.flight, hfl.key, hfl.now, hfl.stage⟩
    · rw [State.goto_of_ne hji] at hj
      obtain ⟨fl, hfl⟩ := h.held j d stage hj
      exact ⟨fl, hfl.flight, hfl.key, hfl.now.trans hclock, hfl.stage⟩
  alone := by
    intro j k d e stage stage' hj hk hlead hlead' heq
    by_cases hji : j = i
    · rw [hji, State.goto_self] at hj
      rw [(hx d stage hj).1] at hlead
      cases hlead
    · by_cases hki : k = i
      · rw [hki, State.goto_self] at hk
        rw [(hx e stage' hk).1] at hlead'
        cases hlead'
      · rw [State.goto_of_ne hji] at hj
        rw [State.goto_of_ne hki] at hk
        exact h.alone j k d e stage stage' hj hk hlead hlead' heq
  led := by
    intro f fl hfl hdone
    obtain ⟨j, d, stage, hj, hlead, heq⟩ := h.led f fl hfl hdone
    refine ⟨j, d, stage, ?_, hlead, heq⟩
    have hji : j ≠ i := by
      rintro rfl
      rw [hi d stage hj] at hlead
      cases hlead
    rw [State.goto_of_ne hji]
    exact hj

/-- A call makes a flight and leads it. -/
theorem Sound.lead (h : Sound reuse s) (hfree : s.thread i = none) (hclock : s.clock ≤ now)
    {flights : Table κ ℕ} {new : Flight κ ρ}
    (hflights : FlightsSound reuse now (s.heap ++ [new]) flights)
    (hnew : new.key = c.key ∧ c.now = now ∧ StageHolds reuse c new .probing)
    (hflight : c.flight = s.heap.length) :
    Sound reuse ({ s with clock := now, heap := s.heap ++ [new], flights := flights }.goto i
      (some (c, .probing))) where
  flights := hflights
  held := by
    intro j d stage hj
    by_cases hji : j = i
    · rw [hji, State.goto_self] at hj
      cases hj
      refine ⟨new, ?_, hnew.1, hnew.2.1.le, hnew.2.2⟩
      rw [hflight]
      exact List.getElem?_concat_length ..
    · rw [State.goto_of_ne hji] at hj
      obtain ⟨fl, hfl⟩ := h.held j d stage hj
      have hlt := (List.getElem?_eq_some_iff.mp hfl.flight).1
      exact ⟨fl, (List.getElem?_append_left hlt).trans hfl.flight, hfl.key, hfl.now.trans hclock,
        hfl.stage⟩
  alone := by
    have hother : ∀ j d stage, j ≠ i → s.thread j = some (d, stage) → d.flight ≠ c.flight := by
      intro j d stage _ hj heq
      obtain ⟨fl, hfl⟩ := h.held j d stage hj
      have hlt := (List.getElem?_eq_some_iff.mp hfl.flight).1
      omega
    intro j k d e stage stage' hj hk hlead hlead' heq
    by_cases hji : j = i
    · by_cases hki : k = i
      · rw [hji, hki]
      · rw [hji, State.goto_self] at hj
        rw [State.goto_of_ne hki] at hk
        obtain ⟨rfl, -⟩ := Prod.mk.inj (Option.some.inj hj)
        exact absurd heq.symm (hother k e stage' hki hk)
    · rw [State.goto_of_ne hji] at hj
      by_cases hki : k = i
      · rw [hki, State.goto_self] at hk
        obtain ⟨rfl, -⟩ := Prod.mk.inj (Option.some.inj hk)
        exact absurd heq (hother j d stage hji hj)
      · rw [State.goto_of_ne hki] at hk
        exact h.alone j k d e stage stage' hj hk hlead hlead' heq
  led := by
    intro f fl hfl hdone
    obtain ⟨rfl, -⟩ | ⟨-, hfl⟩ := getElem?_of_append hfl
    · exact ⟨i, c, .probing, by rw [State.goto_self], rfl, hflight⟩
    · obtain ⟨j, d, stage, hj, hlead, heq⟩ := h.led f fl hfl hdone
      refine ⟨j, d, stage, ?_, hlead, heq⟩
      have hji : j ≠ i := by
        rintro rfl
        rw [hfree] at hj
        cases hj
      rw [State.goto_of_ne hji]
      exact hj

/-- The leader of a flight writes it and goes on. -/
theorem Sound.write (h : Sound reuse s) (hi : s.thread i = some (c, stage))
    (hlead : stage.leads = true) (hfl : s.heap[c.flight]? = some fl) (fl' : Flight κ ρ)
    (hclock : s.clock ≤ now) (hkey : fl'.key = fl.key) {flights : Table κ ℕ}
    (hflights : FlightsSound reuse now (s.heap.set c.flight fl') flights)
    (hothers : ∀ d : Call κ, ∀ stage : Stage, stage.leads = false → d.now ≤ s.clock →
      StageHolds reuse d fl stage → StageHolds reuse d fl' stage)
    {x : Option (Call κ × Stage)}
    (hx : ∀ d stage, x = some (d, stage) → d = c ∧ StageHolds reuse c fl' stage)
    (hled : fl'.done = false → ∃ stage, x = some (c, stage) ∧ stage.leads = true) :
    Sound reuse ({ s with
      clock := now, heap := s.heap.set c.flight fl', flights := flights }.goto i x) where
  flights := hflights
  held := by
    obtain ⟨fl₀, hfl₀⟩ := h.held i c stage hi
    obtain rfl : fl = fl₀ := Option.some.inj (hfl.symm.trans hfl₀.flight)
    intro j d stage' hj
    by_cases hji : j = i
    · rw [hji, State.goto_self] at hj
      obtain ⟨rfl, hstage⟩ := hx d stage' hj
      exact ⟨fl', getElem?_set_same hfl, hkey.trans hfl₀.key, hfl₀.now.trans hclock, hstage⟩
    · rw [State.goto_of_ne hji] at hj
      obtain ⟨gl, hgl⟩ := h.held j d stage' hj
      by_cases hf : d.flight = c.flight
      · have hnot : stage'.leads = false := by
          rw [← Bool.not_eq_true]
          exact fun hlead' => hji (h.alone j i d c stage' stage hj hi hlead' hlead hf)
        have hgl' := hgl.flight
        rw [hf, hfl] at hgl'
        cases hgl'
        refine ⟨fl', ?_, hkey.trans hgl.key, hgl.now.trans hclock,
          hothers d stage' hnot hgl.now hgl.stage⟩
        rw [hf]
        exact getElem?_set_same hfl
      · exact ⟨gl, (getElem?_set_other hf).trans hgl.flight, hgl.key, hgl.now.trans hclock,
          hgl.stage⟩
  alone := by
    intro j k d e stage₁ stage₂ hj hk hlead₁ hlead₂ heq
    by_cases hji : j = i
    · by_cases hki : k = i
      · rw [hji, hki]
      · rw [hji, State.goto_self] at hj
        rw [State.goto_of_ne hki] at hk
        obtain ⟨rfl, -⟩ := hx d stage₁ hj
        rw [hji]
        exact h.alone i k d e stage stage₂ hi hk hlead hlead₂ heq
    · rw [State.goto_of_ne hji] at hj
      by_cases hki : k = i
      · rw [hki, State.goto_self] at hk
        obtain ⟨rfl, -⟩ := hx e stage₂ hk
        rw [hki]
        exact h.alone j i d e stage₁ stage hj hi hlead₁ hlead heq
      · rw [State.goto_of_ne hki] at hk
        exact h.alone j k d e stage₁ stage₂ hj hk hlead₁ hlead₂ heq
  led := by
    intro g gl hgl hdone
    obtain ⟨rfl, rfl⟩ | ⟨hne, hgl⟩ := getElem?_of_set hgl
    · obtain ⟨stage', hstage, hlead'⟩ := hled hdone
      refine ⟨i, c, stage', ?_, hlead', rfl⟩
      rw [State.goto_self]
      exact hstage
    · obtain ⟨j, d, stage', hj, hlead', heq⟩ := h.led g gl hgl hdone
      refine ⟨j, d, stage', ?_, hlead', heq⟩
      have hji : j ≠ i := by
        rintro rfl
        obtain ⟨rfl, -⟩ := Prod.mk.inj (Option.some.inj (hi.symm.trans hj))
        exact hne heq.symm
      rw [State.goto_of_ne hji]
      exact hj

/-- The first section of `run`. -/
theorem Sound.enter (h : Sound reuse s) (hfree : s.thread i = none) (hclock : s.clock ≤ now)
    (key : κ) (wait : ℚ) : Sound reuse (s.enter reuse i key now wait) := by
  have hpurge := h.flights.purge hclock
  rw [State.enter]
  split
  · rename_i f hlookup
    refine h.follow (fun c stage hi => ?_) hclock hpurge fun c stage hx => ?_
    · rw [hfree] at hi
      cases hi
    · cases hx
      obtain ⟨hlisted, hfresh⟩ := Table.lookup_deleteWhere.mp hlookup
      obtain ⟨fl, hfl, hkey, -⟩ := h.flights.listed key f hlisted
      refine ⟨rfl, fl, hfl, hkey, le_rfl, fun t ht => ?_⟩
      rw [expired, hfl, Option.bind_some, ht, Option.any_some, decide_eq_false_iff_not, not_le]
        at hfresh
      exact hfresh
  · rename_i hlookup
    exact h.lead hfree hclock (hpurge.made hlookup) ⟨rfl, rfl, rfl, rfl, rfl⟩ rfl

/-- The section of `finally`. -/
theorem Sound.settle (h : Sound reuse s) (hreuse : 0 < reuse) {raised : Bool}
    (hi : s.thread i = some (c, .settling raised)) (hfl : s.heap[c.flight]? = some fl)
    (hclock : s.clock ≤ now) :
    Sound reuse ((s.settle c fl now).goto i (some (c, .signalling raised))) := by
  obtain ⟨fl₀, hfl₀⟩ := h.held i c _ hi
  obtain rfl : fl = fl₀ := Option.some.inj (hfl.symm.trans hfl₀.flight)
  obtain ⟨hunfinished, hraised⟩ := hfl₀.stage
  obtain ⟨hlisted, -⟩ := h.flights.unfinished _ _ hfl hunfinished
  have hstarted := h.flights.started _ _ hfl
  refine h.write hi rfl hfl { fl with finishedAt := some now } hclock rfl ?_ ?_ ?_
    fun _ => ⟨.signalling raised, rfl, rfl⟩
  · refine h.flights.write hclock hfl rfl rfl ?_ ?_ ?_ ?_ ?_ ?_ ?_
    · intro key g hg
      split at hg
      · rw [Table.lookup_erase_ite] at hg
        split at hg
        · cases hg
        · exact hg
      · exact hg
    · intro key g hne hg
      split
      · rename_i herase
        rw [Table.lookup_erase_ite, if_neg, hg]
        rintro rfl
        exact hne (Option.some.inj (hg.symm.trans herase.2))
      · exact hg
    · intro hlookup _
      split at hlookup
      · rw [hfl₀.key, Table.lookup_erase_ite, if_pos rfl] at hlookup
        cases hlookup
      · rename_i hkept
        rw [← Option.not_isNone, Bool.not_eq_true', ← Bool.not_eq_true]
        refine fun hnone => hkept ⟨hnone, ?_⟩
        rw [← hfl₀.key]
        exact hlisted
    · intro hnone
      cases hnone
    · intro t ht
      cases ht
      exact ⟨hstarted.trans hclock, le_rfl⟩
    · intro t _ hsome hunlisted
      refine absurd ?_ hunlisted
      rw [if_neg, hlisted]
      rintro ⟨hnone, -⟩
      rw [← Option.not_isSome, hsome] at hnone
      cases hnone
    · intro t ht
      rw [hunfinished] at ht
      cases ht
  · intro d stage hlead hd hstage
    cases stage with
    | waiting limit =>
      intro t ht
      cases ht
      linarith
    | reading =>
      obtain ⟨t, ht, -⟩ := hstage
      rw [hunfinished] at ht
      cases ht
    | probing => cases hlead
    | settling => cases hlead
    | signalling => cases hlead
  · intro d stage hx
    cases hx
    exact ⟨rfl, ⟨now, rfl, hfl₀.now.trans hclock⟩, hraised⟩

/-- Every step keeps what holds in every state. -/
theorem sound_step (hreuse : 0 < reuse) {s' : State κ ρ ι} {l : Label κ ρ ι} (h : Sound reuse s)
    (hstep : Step reuse s l s') : Sound reuse s' := by
  cases hstep with
  | enter hfree hclock => exact h.enter hfree hclock _ _
  | @probed i c fl outcome hi hfl =>
    obtain ⟨fl₀, hfl₀⟩ := h.held i c _ hi
    obtain rfl : fl = fl₀ := Option.some.inj (hfl.symm.trans hfl₀.flight)
    obtain ⟨hunfinished, -, -⟩ := hfl₀.stage
    refine h.write hi rfl hfl { fl with result := outcome } le_rfl rfl ?_ ?_ ?_
      fun _ => ⟨.settling outcome.isNone, rfl, rfl⟩
    · refine h.flights.write le_rfl hfl rfl rfl (fun _ _ hg => hg) (fun _ _ _ hg => hg) ?_ ?_ ?_
        ?_ ?_
      · intro _ hsome
        rw [hunfinished] at hsome
        cases hsome
      · exact fun hnone => h.flights.unfinished _ fl hfl hnone
      · exact fun t ht => h.flights.finished _ fl t hfl ht
      · intro t ht
        rw [hunfinished] at ht
        cases ht
      · intro t ht
        rw [hunfinished] at ht
        cases ht
    · intro d stage hlead _ hstage
      cases stage with
      | waiting limit => exact hstage
      | reading => exact hstage
      | probing => cases hlead
      | settling => cases hlead
      | signalling => cases hlead
    · intro d stage hx
      cases hx
      exact ⟨rfl, hunfinished, rfl⟩
  | settle hi hfl hclock => exact h.settle hreuse hi hfl hclock
  | @signal i c fl raised hi hfl =>
    obtain ⟨fl₀, hfl₀⟩ := h.held i c _ hi
    obtain rfl : fl = fl₀ := Option.some.inj (hfl.symm.trans hfl₀.flight)
    obtain ⟨⟨t, ht, hle⟩, -⟩ := hfl₀.stage
    refine h.write hi rfl hfl { fl with done := true } le_rfl rfl ?_ ?_ ?_
      fun hdone => nomatch hdone
    · refine h.flights.write le_rfl hfl rfl rfl (fun _ _ hg => hg) (fun _ _ _ hg => hg) ?_ ?_ ?_
        ?_ ?_
      · intro hlookup hsome
        obtain ⟨gl, hgl, -, hresult⟩ := h.flights.listed _ _ hlookup
        obtain rfl : fl = gl := Option.some.inj (hfl.symm.trans hgl)
        exact hresult hsome
      · intro hnone
        rw [ht] at hnone
        cases hnone
      · exact fun t ht => h.flights.finished _ fl t hfl ht
      · exact fun t ht hresult => h.flights.purged _ fl t hfl ht hresult
      · exact fun t ht => ⟨ht, rfl⟩
    · intro d stage _ _ hstage
      cases stage <;> exact hstage
    · intro d stage hx
      split at hx
      · cases hx
      · cases hx
        exact ⟨rfl, t, ht, by linarith⟩
  | @wake i c fl limit hi hfl hdone =>
    obtain ⟨fl₀, hfl₀⟩ := h.held i c _ hi
    obtain rfl : fl = fl₀ := Option.some.inj (hfl.symm.trans hfl₀.flight)
    refine h.follow (fun d stage hj => ?_) le_rfl h.flights fun d stage hx => ?_
    · obtain ⟨-, rfl⟩ := Prod.mk.inj (Option.some.inj (hi.symm.trans hj))
      rfl
    · cases hx
      refine ⟨rfl, fl, hfl, hfl₀.key, hfl₀.now, ?_⟩
      cases ht : fl.finishedAt with
      | none =>
        rw [(h.flights.unfinished _ _ hfl ht).2] at hdone
        cases hdone
      | some t => exact ⟨t, ht, hfl₀.stage t ht⟩
  | @expire i c limit now hi hclock _ =>
    refine h.follow (fun d stage hj => ?_) hclock ?_ fun d stage hx => nomatch hx
    · obtain ⟨-, rfl⟩ := Prod.mk.inj (Option.some.inj (hi.symm.trans hj))
      rfl
    · exact h.flights.mono hclock
  | @finish i c fl hi hfl =>
    refine h.follow (fun d stage hj => ?_) le_rfl h.flights fun d stage hx => nomatch hx
    obtain ⟨-, rfl⟩ := Prod.mk.inj (Option.some.inj (hi.symm.trans hj))
    rfl

end Calls

/-! ## Where a result comes from -/

section Origins

variable {ls : List (Label κ ρ ι)} {l : Label κ ρ ι} {i : ι} {key : κ} {now : ℚ} {v : ρ}

/-- The last step of the thread `i` is the start of a call. -/
def Entered (ls : List (Label κ ρ ι)) (i : ι) (key : κ) (now : ℚ) : Prop :=
  ∃ before wait after, ls = before ++ .enter i key now wait :: after ∧ ∀ l ∈ after, l.caller ≠ i

/-- A call for the key, which began at `now`, ran a probe that returned the value. -/
def Origin (ls : List (Label κ ρ ι)) (key : κ) (now : ℚ) (v : ρ) : Prop :=
  ∃ i before after, Entered before i key now ∧ ls = before ++ .probed i (some v) :: after

/-- The last step of the thread `i` is the end of a probe that returned the value, in a call for the
key that began at `now`. -/
def Probed (ls : List (Label κ ρ ι)) (i : ι) (key : κ) (now : ℚ) (v : ρ) : Prop :=
  ∃ before after, Entered before i key now ∧ ls = before ++ .probed i (some v) :: after ∧
    ∀ l ∈ after, l.caller ≠ i

/-- A call for the key, which began at `now`, ran a probe that returned the value, and its section
of `finally` read the time `t`. -/
def Ended (ls : List (Label κ ρ ι)) (key : κ) (now : ℚ) (v : ρ) (t : ℚ) : Prop :=
  ∃ i before after, Probed before i key now v ∧ ls = before ++ .settle i t :: after

theorem Entered.snoc (h : Entered ls i key now) (hl : l.caller ≠ i) :
    Entered (ls ++ [l]) i key now := by
  obtain ⟨before, wait, after, rfl, hafter⟩ := h
  refine ⟨before, wait, after ++ [l], by rw [List.append_assoc, List.cons_append], ?_⟩
  intro l' hl'
  obtain hl' | hl' := List.mem_append.mp hl'
  · exact hafter l' hl'
  · rw [List.mem_singleton.mp hl']
    exact hl

theorem Origin.snoc (h : Origin ls key now v) : Origin (ls ++ [l]) key now v := by
  obtain ⟨i, before, after, hentered, rfl⟩ := h
  exact ⟨i, before, after ++ [l], hentered, by rw [List.append_assoc, List.cons_append]⟩

theorem Probed.snoc (h : Probed ls i key now v) (hl : l.caller ≠ i) :
    Probed (ls ++ [l]) i key now v := by
  obtain ⟨before, after, hentered, rfl, hafter⟩ := h
  refine ⟨before, after ++ [l], hentered, by rw [List.append_assoc, List.cons_append], ?_⟩
  intro l' hl'
  obtain hl' | hl' := List.mem_append.mp hl'
  · exact hafter l' hl'
  · rw [List.mem_singleton.mp hl']
    exact hl

theorem Ended.snoc {t : ℚ} (h : Ended ls key now v t) : Ended (ls ++ [l]) key now v t := by
  obtain ⟨i, before, after, hprobed, rfl⟩ := h
  exact ⟨i, before, after ++ [l], hprobed, by rw [List.append_assoc, List.cons_append]⟩

/-- The steps so far record what runs and what is shared. -/
structure Recorded (ls : List (Label κ ρ ι)) (s : State κ ρ ι) : Prop where
  probing : ∀ i c, s.thread i = some (c, .probing) → Entered ls i c.key c.now
  results : ∀ (f : ℕ) (fl : Flight κ ρ) v, s.heap[f]? = some fl → fl.result = some v →
    Origin ls fl.key fl.started v
  settling : ∀ i c raised (fl : Flight κ ρ) v, s.thread i = some (c, .settling raised) →
    s.heap[c.flight]? = some fl → fl.result = some v → Probed ls i fl.key fl.started v
  ended : ∀ (f : ℕ) (fl : Flight κ ρ) v t, s.heap[f]? = some fl → fl.result = some v →
    fl.finishedAt = some t → Ended ls fl.key fl.started v t

variable [DecidableEq κ] [DecidableEq ι] {reuse : ℚ} {s s' : State κ ρ ι}

/-- A step changes no other call. -/
theorem thread_of_ne (h : Step reuse s l s') (hi : i ≠ l.caller) : s'.thread i = s.thread i := by
  cases h with
  | enter =>
    rw [State.enter]
    split <;> exact Function.update_of_ne hi _ _
  | _ => exact Function.update_of_ne hi _ _

/-- Only the start of a call leads to a probe. -/
theorem enter_of_probing {c : Call κ} (h : Step reuse s l s')
    (hc : s'.thread l.caller = some (c, .probing)) :
    ∃ wait, l = .enter l.caller c.key c.now wait := by
  cases h with
  | @enter i key now wait =>
    refine ⟨wait, ?_⟩
    rw [State.enter] at hc
    split at hc
    · rw [Label.caller, State.goto_self] at hc
      cases Option.some.inj hc
    · rw [Label.caller, State.goto_self] at hc
      obtain ⟨rfl, -⟩ := Prod.mk.inj (Option.some.inj hc)
      rfl
  | signal =>
    rw [Label.caller, State.goto_self] at hc
    split at hc
    · cases hc
    · cases Option.some.inj hc
  | expire =>
    rw [Label.caller, State.goto_self] at hc
    cases hc
  | finish =>
    rw [Label.caller, State.goto_self] at hc
    cases hc
  | _ =>
    rw [Label.caller, State.goto_self] at hc
    cases Option.some.inj hc

/-- A flight with a result had it before the step, or the step is the end of its probe. -/
theorem result_cases (h : Step reuse s l s') {f : ℕ} {fl : Flight κ ρ} (hfl : s'.heap[f]? = some fl)
    (hv : fl.result = some v) :
    ∃ gl, s.heap[f]? = some gl ∧ gl.key = fl.key ∧ gl.started = fl.started ∧
      (gl.result = some v ∨ ∃ i c, l = .probed i (some v) ∧ s.thread i = some (c, .probing) ∧
        c.flight = f) := by
  cases h with
  | enter =>
    rw [State.enter] at hfl
    split at hfl
    · exact ⟨fl, hfl, rfl, rfl, .inl hv⟩
    · obtain ⟨-, rfl⟩ | ⟨-, hfl⟩ := getElem?_of_append hfl
      · cases hv
      · exact ⟨fl, hfl, rfl, rfl, .inl hv⟩
  | @probed i c gl outcome hi hgl =>
    obtain ⟨rfl, rfl⟩ | ⟨-, hfl⟩ := getElem?_of_set hfl
    · obtain rfl : outcome = some v := hv
      exact ⟨gl, hgl, rfl, rfl, .inr ⟨i, c, rfl, hi, rfl⟩⟩
    · exact ⟨fl, hfl, rfl, rfl, .inl hv⟩
  | @settle i c gl raised now hi hgl =>
    obtain ⟨rfl, rfl⟩ | ⟨-, hfl⟩ := getElem?_of_set hfl
    · exact ⟨gl, hgl, rfl, rfl, .inl hv⟩
    · exact ⟨fl, hfl, rfl, rfl, .inl hv⟩
  | @signal i c gl raised hi hgl =>
    obtain ⟨rfl, rfl⟩ | ⟨-, hfl⟩ := getElem?_of_set hfl
    · exact ⟨gl, hgl, rfl, rfl, .inl hv⟩
    · exact ⟨fl, hfl, rfl, rfl, .inl hv⟩
  | _ => exact ⟨fl, hfl, rfl, rfl, .inl hv⟩

/-- Only the end of a probe leads to the section of `finally`. -/
theorem probed_of_settling {c : Call κ} {raised : Bool} (h : Step reuse s l s')
    (hc : s'.thread l.caller = some (c, .settling raised)) :
    ∃ outcome, l = .probed l.caller outcome ∧ s.thread l.caller = some (c, .probing) := by
  cases h with
  | enter =>
    rw [State.enter] at hc
    split at hc
    · rw [Label.caller, State.goto_self] at hc
      cases Option.some.inj hc
    · rw [Label.caller, State.goto_self] at hc
      cases Option.some.inj hc
  | @probed i c' fl outcome hi =>
    rw [Label.caller, State.goto_self] at hc
    obtain ⟨rfl, -⟩ := Prod.mk.inj (Option.some.inj hc)
    exact ⟨outcome, rfl, hi⟩
  | signal =>
    rw [Label.caller, State.goto_self] at hc
    split at hc
    · cases hc
    · cases Option.some.inj hc
  | expire =>
    rw [Label.caller, State.goto_self] at hc
    cases hc
  | finish =>
    rw [Label.caller, State.goto_self] at hc
    cases hc
  | _ =>
    rw [Label.caller, State.goto_self] at hc
    cases Option.some.inj hc

/-- A finished flight was finished before the step, or the step is the section of `finally`. -/
theorem ended_cases (hsound : Sound reuse s) (h : Step reuse s l s') {f : ℕ} {fl : Flight κ ρ}
    {t : ℚ} (hfl : s'.heap[f]? = some fl) (hv : fl.result = some v)
    (ht : fl.finishedAt = some t) :
    ∃ gl, s.heap[f]? = some gl ∧ gl.key = fl.key ∧ gl.started = fl.started ∧
      gl.result = some v ∧ (gl.finishedAt = some t ∨ ∃ i c raised, l = .settle i t ∧
        s.thread i = some (c, .settling raised) ∧ c.flight = f) := by
  cases h with
  | enter =>
    rw [State.enter] at hfl
    split at hfl
    · exact ⟨fl, hfl, rfl, rfl, hv, .inl ht⟩
    · obtain ⟨-, rfl⟩ | ⟨-, hfl⟩ := getElem?_of_append hfl
      · cases hv
      · exact ⟨fl, hfl, rfl, rfl, hv, .inl ht⟩
  | @probed i c gl outcome hi hgl =>
    obtain ⟨rfl, rfl⟩ | ⟨-, hfl⟩ := getElem?_of_set hfl
    · -- a probe that runs has no finished flight
      obtain ⟨gl', hgl'⟩ := hsound.held i c _ hi
      obtain rfl : gl = gl' := Option.some.inj (hgl.symm.trans hgl'.flight)
      exact absurd (hgl'.stage.1.symm.trans ht) fun hn => nomatch hn
    · exact ⟨fl, hfl, rfl, rfl, hv, .inl ht⟩
  | @settle i c gl raised now hi hgl =>
    obtain ⟨rfl, rfl⟩ | ⟨-, hfl⟩ := getElem?_of_set hfl
    · cases ht
      exact ⟨gl, hgl, rfl, rfl, hv, .inr ⟨i, c, raised, rfl, hi, rfl⟩⟩
    · exact ⟨fl, hfl, rfl, rfl, hv, .inl ht⟩
  | @signal i c gl raised hi hgl =>
    obtain ⟨rfl, rfl⟩ | ⟨-, hfl⟩ := getElem?_of_set hfl
    · exact ⟨gl, hgl, rfl, rfl, hv, .inl ht⟩
    · exact ⟨fl, hfl, rfl, rfl, hv, .inl ht⟩
  | _ => exact ⟨fl, hfl, rfl, rfl, hv, .inl ht⟩

theorem recorded_step (h : Recorded ls s) (hsound : Sound reuse s) (hstep : Step reuse s l s') :
    Recorded (ls ++ [l]) s' where
  probing := by
    intro i c hi
    by_cases hil : i = l.caller
    · subst hil
      obtain ⟨wait, hl⟩ := enter_of_probing hstep hi
      exact ⟨ls, wait, [], by rw [← hl], fun _ hm => absurd hm List.not_mem_nil⟩
    · rw [thread_of_ne hstep hil] at hi
      exact (h.probing i c hi).snoc fun he => hil he.symm
  results := by
    intro f fl v hfl hv
    obtain ⟨gl, hgl, hkey, hstarted, hresult | ⟨i, c, rfl, hi, rfl⟩⟩ := result_cases hstep hfl hv
    · rw [← hkey, ← hstarted]
      exact (h.results f gl v hgl hresult).snoc
    · obtain ⟨gl', hgl'⟩ := hsound.held i c _ hi
      obtain rfl : gl = gl' := Option.some.inj (hgl.symm.trans hgl'.flight)
      refine ⟨i, ls, [], ?_, rfl⟩
      rw [← hkey, ← hstarted, hgl'.key, hgl'.stage.2.2]
      exact h.probing i c hi
  settling := by
    intro i c raised fl v hi hfl hv
    obtain ⟨gl, hgl, hkey, hstarted, hresult⟩ := result_cases hstep hfl hv
    rw [← hkey, ← hstarted]
    by_cases hil : i = l.caller
    · subst hil
      obtain ⟨outcome, hl, hprobing⟩ := probed_of_settling hstep hi
      obtain ⟨gl', hgl'⟩ := hsound.held _ c _ hprobing
      obtain rfl : gl = gl' := Option.some.inj (hgl.symm.trans hgl'.flight)
      obtain hresult | ⟨j, d, hl', -, -⟩ := hresult
      · exact absurd (hgl'.stage.2.1.symm.trans hresult) fun hn => nomatch hn
      · rw [hgl'.key, hgl'.stage.2.2]
        have hcaller : l.caller = j := by rw [hl', Label.caller]
        refine ⟨ls, [], h.probing _ c hprobing, ?_, fun _ hm => absurd hm List.not_mem_nil⟩
        rw [hcaller, ← hl']
    · rw [thread_of_ne hstep hil] at hi
      refine (h.settling i c raised gl v hi hgl ?_).snoc fun he => hil he.symm
      obtain hresult | ⟨j, d, rfl, hj, hf⟩ := hresult
      · exact hresult
      · -- no other thread works on the flight
        exact absurd (hsound.alone i j c d _ _ hi hj rfl rfl hf.symm) hil
  ended := by
    intro f fl v t hfl hv ht
    obtain ⟨gl, hgl, hkey, hstarted, hresult, hend⟩ := ended_cases hsound hstep hfl hv ht
    rw [← hkey, ← hstarted]
    obtain hend | ⟨i, c, raised, rfl, hi, rfl⟩ := hend
    · exact (h.ended f gl v t hgl hresult hend).snoc
    · exact ⟨i, ls, [], h.settling i c raised gl v hi hgl hresult, rfl⟩

end Origins

/-! ## The main results -/

section Main

variable [DecidableEq κ] [DecidableEq ι] {reuse : ℚ}

/-- What the callers of `run` can rely on. -/
structure Shares (reuse : ℚ) (s : State κ ρ ι) : Prop where
  /-- a key is not probed again while a result of it is shared -/
  spaced : ∀ (f g : ℕ) (fl gl : Flight κ ρ), f < g → s.heap[f]? = some fl →
    s.heap[g]? = some gl → fl.key = gl.key → ∃ t, fl.Before reuse gl t
  /-- a call waits for a flight that is done, or that a thread works on -/
  awaited : ∀ i c limit, s.thread i = some (c, .waiting limit) →
    ∃ fl : Flight κ ρ, s.heap[c.flight]? = some fl ∧
      (fl.done = true ∨ ∃ j d stage, s.thread j = some (d, stage) ∧ stage.leads = true ∧
        d.flight = c.flight)
  /-- a flight that is stored has a result, unless a thread works on it -/
  stored : ∀ key f, s.flights.lookup key = some f →
    ∃ fl : Flight κ ρ, s.heap[f]? = some fl ∧ fl.key = key ∧
      (fl.result.isSome = true ∨ ∃ j d stage, s.thread j = some (d, stage) ∧
        stage.leads = true ∧ d.flight = f)

theorem sound_recorded (hreuse : 0 < reuse) {clock : ℚ} {ls : List (Label κ ρ ι)} {s : State κ ρ ι}
    (h : Run (Step reuse) (State.initial clock) ls s) : Sound reuse s ∧ Recorded ls s := by
  refine Run.invariant_trace (I := fun ls s => Sound reuse s ∧ Recorded ls s) h ?_ ?_
  · refine ⟨sound_initial reuse clock, ⟨?_, ?_, ?_, ?_⟩⟩
    · intro i c h
      cases h
    · intro f fl v h
      cases h
    · intro i c raised fl v h
      cases h
    · intro f fl v t h
      cases h
  · rintro ls s l s' ⟨hsound, hrecorded⟩ hstep
    exact ⟨sound_step hreuse hsound hstep, recorded_step hrecorded hsound hstep⟩

/-- **Probes are shared**, in every interleaving of any number of calls.  Nobody waits in vain: a
flight that is not done has a thread at work on it. -/
theorem shared_probes (hreuse : 0 < reuse) {clock : ℚ} {ls : List (Label κ ρ ι)}
    {s : State κ ρ ι} (h : Run (Step reuse) (State.initial clock) ls s) : Shares reuse s := by
  obtain ⟨hsound, -⟩ := sound_recorded hreuse h
  refine ⟨hsound.flights.spaced, ?_, ?_⟩
  · intro i c limit hi
    obtain ⟨fl, hfl⟩ := hsound.held i c _ hi
    refine ⟨fl, hfl.flight, ?_⟩
    cases hdone : fl.done with
    | true => exact .inl rfl
    | false => exact .inr (hsound.led _ _ hfl.flight hdone)
  · intro key f hf
    obtain ⟨fl, hfl, hkey, hfinished⟩ := hsound.flights.listed key f hf
    refine ⟨fl, hfl, hkey, ?_⟩
    cases hat : fl.finishedAt with
    | some t => exact .inl (hfinished (by rw [hat]; rfl))
    | none => exact .inr (hsound.led f fl hfl (hsound.flights.unfinished f fl hfl hat).2)

/-- Two threads share the probe of the key 7 and a third call reuses its result; then it has expired
and is probed again, while a thread waits for the probe of the key 8. -/
def sharedRun : List (Label ℕ ℕ ℕ) :=
  [.enter 0 7 0 20, .enter 1 7 1 20, .probed 0 (some 5), .settle 0 2, .signal 0, .wake 1,
    .finish 1 (some 5), .enter 2 7 3 20, .wake 2, .enter 3 8 3 20, .enter 4 8 3 20,
    .enter 5 7 5 20]

theorem run_sharedRun :
    ∃ s, Run (Step 2) (State.initial 0 : State ℕ ℕ ℕ) sharedRun s ∧
      (∃ s', Step 2 s (.finish 2 (some 5)) s') ∧ s.thread 4 = some (⟨8, 3, 1⟩, .waiting (3 + 20)) ∧
      s.heap.map (fun fl => (fl.key, fl.started, fl.finishedAt)) =
        [(7, 0, some 2), (8, 3, none), (7, 5, none)] := by
  have h₁ : Step 2 (State.initial 0 : State ℕ ℕ ℕ) (.enter 0 7 0 20) _ := .lead rfl le_rfl rfl
  have h₂ := Run.snoc .nil h₁
  have h₃ := h₂.snoc (@Step.join _ _ _ _ _ _ _ 1 7 1 20 0 rfl (by decide) rfl)
  have h₄ := h₃.snoc (@Step.probed _ _ _ _ _ _ _ 0 _ _ (some 5) rfl rfl)
  have h₅ := h₄.snoc (@Step.settle _ _ _ _ _ _ _ 0 _ _ _ 2 rfl rfl (by decide))
  have h₆ := h₅.snoc (@Step.signal _ _ _ _ _ _ _ 0 _ _ _ rfl rfl)
  have h₇ := h₆.snoc (@Step.wake _ _ _ _ _ _ _ 1 _ _ _ rfl rfl rfl)
  have h₈ := h₇.snoc (@Step.finish _ _ _ _ _ _ _ 1 _ _ rfl rfl)
  have h₉ := h₈.snoc (@Step.join _ _ _ _ _ _ _ 2 7 3 20 0 rfl (by decide) (by decide +kernel))
  have h₁₀ := h₉.snoc (@Step.wake _ _ _ _ _ _ _ 2 _ _ _ rfl rfl rfl)
  have h₁₁ := h₁₀.snoc (@Step.lead _ _ _ _ _ _ _ 3 8 3 20 rfl (by decide) (by decide +kernel))
  have h₁₂ := h₁₁.snoc (@Step.join _ _ _ _ _ _ _ 4 8 3 20 1 rfl (by decide) (by decide +kernel))
  have h₁₃ := h₁₂.snoc (@Step.lead _ _ _ _ _ _ _ 5 7 5 20 rfl (by decide) (by decide +kernel))
  exact ⟨_, h₁₃, ⟨_, @Step.finish _ _ _ _ _ _ _ 2 _ ⟨7, 0, true, some 5, some 2⟩ rfl rfl⟩,
    rfl, rfl⟩

theorem shared_probes_sample : ∃ s : State ℕ ℕ ℕ,
    Run (Step 2) (State.initial 0) sharedRun s ∧
      s.thread 4 = some (⟨8, 3, 1⟩, .waiting (3 + 20)) ∧
      s.heap.map (fun fl => (fl.key, fl.started, fl.finishedAt)) =
        [(7, 0, some 2), (8, 3, none), (7, 5, none)] ∧ Shares 2 s := by
  obtain ⟨s, hs, -, hwaits, hheap⟩ := run_sharedRun
  exact ⟨s, hs, hwaits, hheap, shared_probes (by decide) hs⟩

end Main

end SingleFlight
end Controller
end OpenstackPlatform
