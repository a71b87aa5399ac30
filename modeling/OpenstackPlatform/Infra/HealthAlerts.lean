import Mathlib.Algebra.Order.Ring.Rat
import Mathlib.Tactic.Linarith

/-!
# Health alerts

The state machine of `infra/lib/health_alerts.py`.  Every run of the health timer is one check.  The
state between checks is a counter of consecutive failures, a flag and the time of the last attempt.
The flag is set by a failing alert and taken back by a recovered alert that was delivered, so an
incident lasts until its recovery is delivered, and not until the first healthy check.

* `transition`, `notify`: one check, with the delivery of its alert as an input.
* `Monitored`: the histories of checks, newest first.
* `state_of_history`: the state is a function of the history.
* `Alerts`, `alerts_of_monitored`: what holds of every history.
* `suppressed_incident`: an incident without a failing alert.
-/

namespace OpenstackPlatform
namespace Infra

/-! ## One check -/

/-- The settings that `validate` accepts. -/
structure Settings where
  failureThreshold : Nat
  repeatSeconds : Nat
  threshold_ok : 1 ≤ failureThreshold ∧ failureThreshold ≤ 100
  repeat_ok : 3600 ≤ repeatSeconds ∧ repeatSeconds ≤ 604800

/-- The defaults of `validate`. -/
def Settings.default : Settings where
  failureThreshold := 2
  repeatSeconds := 14400
  threshold_ok := by decide
  repeat_ok := by decide

/-- The events of an alert. -/
inductive Alert where
  | failing
  | recovered
  deriving DecidableEq, Repr

/-- `health-alerts.json` -/
structure AlertState where
  failures : Nat
  incident : Bool
  lastAttempt : ℚ
  deriving DecidableEq

/-- The state without a file. -/
def AlertState.initial : AlertState := ⟨0, false, 0⟩

/-- The check that `notify` makes of a saved state. -/
def AlertState.isValid (state : AlertState) : Bool :=
  state.failures ≤ 100 && 0 ≤ state.lastAttempt

/-- `transition` -/
def transition (state : AlertState) (healthy : Bool) (now : ℚ) (settings : Settings) :
    AlertState × Option Alert :=
  let previous := state.failures
  let state := { state with failures := if healthy then 0 else min (previous + 1) 100 }
  if healthy then
    if state.incident && (previous != 0 || 300 ≤ now - state.lastAttempt) then
      ({ state with lastAttempt := now }, some .recovered)
    else (state, none)
  else if settings.failureThreshold ≤ state.failures &&
      (!state.incident || settings.repeatSeconds ≤ now - state.lastAttempt) then
    ({ state with incident := true, lastAttempt := now }, some .failing)
  else (state, none)

/-- `notify`: the state that is saved, and the alert that is attempted.  There is none when the saved
state is invalid. -/
def notify (settings : Settings) (saved : AlertState) (healthy : Bool) (now : ℚ)
    (delivered : Bool) : Option (AlertState × Option Alert) :=
  if saved.isValid then
    let (state, event) := transition saved healthy now settings
    if event == some .recovered && delivered then some ({ state with incident := false }, event)
    else some (state, event)
  else none

/-! ## Histories -/

/-- One check, with the alert that it attempted. -/
structure Check where
  healthy : Bool
  now : ℚ
  event : Option Alert
  delivered : Bool
  deriving DecidableEq

/-- The histories of checks at times that do not decrease, newest first, with the state after
them. -/
inductive Monitored (settings : Settings) : List Check → AlertState → Prop where
  | start : Monitored settings [] .initial
  | check {past : List Check} {s s' : AlertState} {c : Check} (h : Monitored settings past s)
      (htime : 0 ≤ c.now ∧ ∀ o ∈ past, o.now ≤ c.now)
      (hnotify : notify settings s c.healthy c.now c.delivered = some (s', c.event)) :
      Monitored settings (c :: past) s'

/-- The failures at the end of a history. -/
def failuresOf : List Check → Nat
  | [] => 0
  | c :: past => if c.healthy then 0 else failuresOf past + 1

/-- The check ends an incident: its recovery was delivered. -/
def Check.closes (c : Check) : Bool := c.event == some .recovered && c.delivered

/-- There is a failing alert after the last recovery that was delivered. -/
def incidentOf : List Check → Bool
  | [] => false
  | c :: past => if c.event = some .failing then true else if c.closes then false else incidentOf past

/-- The time of the last attempt. -/
def lastAttemptOf : List Check → ℚ
  | [] => 0
  | c :: past => if c.event.isSome then c.now else lastAttemptOf past

/-- What a check attempts after a history. -/
def eventOf (settings : Settings) (past : List Check) (healthy : Bool) (now : ℚ) : Option Alert :=
  if healthy then
    if incidentOf past && (failuresOf past != 0 || 300 ≤ now - lastAttemptOf past) then
      some .recovered
    else none
  else if settings.failureThreshold ≤ failuresOf past + 1 &&
      (!incidentOf past || settings.repeatSeconds ≤ now - lastAttemptOf past) then
    some .failing
  else none

/-- The state after a history. -/
def stateOf (past : List Check) : AlertState :=
  ⟨min (failuresOf past) 100, incidentOf past, lastAttemptOf past⟩

theorem lastAttemptOf_nonneg {settings : Settings} {past : List Check} {s : AlertState}
    (h : Monitored settings past s) : 0 ≤ lastAttemptOf past := by
  induction h with
  | start => exact le_refl 0
  | check _ htime _ ih =>
    rw [lastAttemptOf]
    split
    · exact htime.1
    · exact ih

/-- The capped counter says whether there are failures. -/
theorem min_ne_zero (n : Nat) : (min n 100 != 0) = (n != 0) := by
  cases n with
  | zero => rfl
  | succ n =>
    have hmin : min (n + 1) 100 ≠ 0 := by omega
    rw [bne_iff_ne.mpr hmin, bne_iff_ne.mpr (Nat.succ_ne_zero n)]

/-- The capped counter reaches the threshold when the failures do. -/
theorem threshold_le_min (settings : Settings) (n : Nat) :
    (settings.failureThreshold ≤ min (min n 100 + 1) 100) ↔ settings.failureThreshold ≤ n + 1 := by
  have := settings.threshold_ok
  omega

/-- What a check attempts is a function of the history. -/
theorem transition_event (settings : Settings) (past : List Check) (healthy : Bool) (now : ℚ) :
    (transition (stateOf past) healthy now settings).2 = eventOf settings past healthy now := by
  have hcap := threshold_le_min settings (failuresOf past)
  have hzero := min_ne_zero (failuresOf past)
  cases healthy with
  | true =>
    simp only [transition, eventOf, stateOf, if_true, hzero]
    rw [apply_ite Prod.snd]
    exact if_congr Iff.rfl rfl rfl
  | false =>
    simp only [transition, eventOf, stateOf, Bool.false_eq_true, if_false, hcap]
    rw [apply_ite Prod.snd]
    exact if_congr Iff.rfl rfl rfl

/-- The state after a check, before the delivery of its alert. -/
theorem transition_state (settings : Settings) (past : List Check) (healthy : Bool) (now : ℚ) :
    (transition (stateOf past) healthy now settings).1 =
      ⟨min (if healthy then 0 else failuresOf past + 1) 100,
        if eventOf settings past healthy now = some .failing then true else incidentOf past,
        if (eventOf settings past healthy now).isSome then now else lastAttemptOf past⟩ := by
  have hmin : min (min (failuresOf past) 100 + 1) 100 = min (failuresOf past + 1) 100 := by omega
  rw [← transition_event]
  cases healthy with
  | true =>
    simp only [transition, stateOf, if_true]
    split <;> rfl
  | false =>
    simp only [transition, stateOf, Bool.false_eq_true, if_false, hmin]
    split <;> rfl

/-- One check, in terms of the history. -/
theorem notify_stateOf (settings : Settings) {past : List Check} (hpast : 0 ≤ lastAttemptOf past)
    (healthy : Bool) (now : ℚ) (delivered : Bool) :
    notify settings (stateOf past) healthy now delivered =
      some (stateOf (⟨healthy, now, eventOf settings past healthy now, delivered⟩ :: past),
        eventOf settings past healthy now) := by
  have hvalid : (stateOf past).isValid = true := by
    rw [AlertState.isValid, Bool.and_eq_true, decide_eq_true_eq, decide_eq_true_eq]
    exact ⟨Nat.min_le_right _ _, hpast⟩
  have hevent := transition_event settings past healthy now
  have hstate := transition_state settings past healthy now
  generalize eventOf settings past healthy now = event at hevent hstate ⊢
  have htransition := Prod.ext (y := (_, event)) hstate hevent
  rw [notify, if_pos hvalid, htransition]
  simp only [stateOf, failuresOf, incidentOf, lastAttemptOf, Check.closes]
  cases event with
  | none => cases healthy <;> rfl
  | some event =>
    cases event with
    | failing => cases healthy <;> rfl
    | recovered => cases healthy <;> cases delivered <;> rfl

/-- The state is a function of the history, and so is every attempt. -/
theorem state_of_history {settings : Settings} {past : List Check} {s : AlertState}
    (h : Monitored settings past s) :
    s = stateOf past ∧ ∀ c earlier, c :: earlier <:+ past →
      c.event = eventOf settings earlier c.healthy c.now := by
  induction h with
  | start => exact ⟨rfl, fun c earlier hsuffix => absurd (List.suffix_nil.mp hsuffix) (by simp)⟩
  | @check past s s' c h htime hnotify ih =>
    obtain ⟨rfl, ih⟩ := ih
    rw [notify_stateOf settings (lastAttemptOf_nonneg h)] at hnotify
    obtain ⟨hs', hevent⟩ := Prod.mk.inj (Option.some.inj hnotify)
    rw [hevent] at hs'
    refine ⟨hs'.symm, fun d earlier hsuffix => ?_⟩
    obtain heq | hsuffix := List.suffix_cons_iff.mp hsuffix
    · obtain ⟨rfl, rfl⟩ := List.cons.inj heq
      exact hevent.symm
    · exact ih d earlier hsuffix

/-! ## The main result -/

/-- What holds of the alerts of a history. -/
structure Alerts (settings : Settings) (past : List Check) : Prop where
  /-- a failing alert comes after enough failures in a row -/
  failing : ∀ c earlier, c :: earlier <:+ past → c.event = some .failing →
    settings.failureThreshold ≤ failuresOf (c :: earlier)
  /-- the failing alerts of one incident are far enough from each other -/
  repeats : ∀ c between d earlier, c :: (between ++ d :: earlier) <:+ past →
    c.event = some .failing → d.event = some .failing → (∀ b ∈ between, b.closes = false) →
      d.now + settings.repeatSeconds ≤ c.now
  /-- a recovered alert comes after a failing one of the same incident -/
  recovered : ∀ c earlier, c :: earlier <:+ past → c.event = some .recovered →
    ∃ between d before, earlier = between ++ d :: before ∧ d.event = some .failing ∧
      ∀ b ∈ between, b.closes = false
  /-- the check that reaches the threshold attempts a failing alert, but for an incident that is
  still open and whose last attempt is too recent -/
  reached : ∀ c earlier, c :: earlier <:+ past →
    failuresOf (c :: earlier) = settings.failureThreshold →
      (c.event = some .failing ↔ incidentOf earlier = false ∨
        lastAttemptOf earlier + settings.repeatSeconds ≤ c.now)

/-- An open incident has a failing alert that no delivered recovery follows. -/
theorem exists_failing_of_incident : ∀ {past : List Check}, incidentOf past = true →
    ∃ between d before, past = between ++ d :: before ∧ d.event = some .failing ∧
      ∀ b ∈ between, b.closes = false
  | [], h => absurd h (by decide)
  | c :: past, h => by
    rw [incidentOf] at h
    split at h
    · rename_i hfailing
      exact ⟨[], c, past, rfl, hfailing, fun b hb => absurd hb List.not_mem_nil⟩
    · split at h
      · cases h
      · rename_i hcloses
        obtain ⟨between, d, before, rfl, hd, hbetween⟩ := exists_failing_of_incident h
        refine ⟨c :: between, d, before, rfl, hd, fun b hb => ?_⟩
        obtain rfl | hb := List.mem_cons.mp hb
        · simpa using hcloses
        · exact hbetween b hb

/-- After a failing alert that no delivered recovery follows the incident is open, and the last
attempt is not before it. -/
theorem incident_of_failing {past : List Check} {d : Check} (hd : d.event = some .failing) :
    ∀ {between : List Check}, (∀ b ∈ between, b.closes = false) →
      (∀ b ∈ between, d.now ≤ b.now) →
        incidentOf (between ++ d :: past) = true ∧ d.now ≤ lastAttemptOf (between ++ d :: past)
  | [], _, _ => by
    constructor
    · rw [List.nil_append, incidentOf, if_pos hd]
    · rw [List.nil_append, lastAttemptOf, hd]
      exact le_refl _
  | b :: between, hcloses, htime => by
    obtain ⟨hincident, hlast⟩ := incident_of_failing hd
      (fun c hc => hcloses c (List.mem_cons_of_mem _ hc))
      (fun c hc => htime c (List.mem_cons_of_mem _ hc))
    constructor
    · rw [List.cons_append, incidentOf, hcloses b List.mem_cons_self, hincident]
      split <;> rfl
    · rw [List.cons_append, lastAttemptOf]
      split
      · exact htime b List.mem_cons_self
      · exact hlast

/-- The times of a history do not decrease. -/
theorem times_of_monitored {settings : Settings} {past : List Check} {s : AlertState}
    (h : Monitored settings past s) : past.Pairwise fun c d => d.now ≤ c.now := by
  induction h with
  | start => exact .nil
  | check _ htime _ ih => exact .cons htime.2 ih

/-- **Health alerts**, for every history of checks and deliveries.  An incident stays open until its
recovery is delivered: a check that reaches the threshold meanwhile repeats the alert of it. -/
theorem alerts_of_monitored {settings : Settings} {past : List Check} {s : AlertState}
    (h : Monitored settings past s) : Alerts settings past := by
  have hevent := (state_of_history h).2
  have htimes := times_of_monitored h
  constructor
  · intro c earlier hsuffix hfailing
    have hc := (hevent c earlier hsuffix).symm.trans hfailing
    rw [eventOf] at hc
    split at hc
    · split at hc <;> cases hc
    · rename_i hhealthy
      split at hc
      · rename_i hdue
        rw [Bool.and_eq_true, decide_eq_true_eq] at hdue
        rw [failuresOf, if_neg hhealthy]
        exact hdue.1
      · cases hc
  · intro c between d earlier hsuffix hc hd hbetween
    have hdue := (hevent c _ hsuffix).symm.trans hc
    have hpairwise := htimes.sublist hsuffix.sublist
    have hlater : ∀ b ∈ between, d.now ≤ b.now := fun b hb =>
      (List.pairwise_append.mp (List.pairwise_cons.mp hpairwise).2).2.2 b hb d List.mem_cons_self
    obtain ⟨hincident, hlast⟩ := @incident_of_failing earlier d hd _ hbetween hlater
    rw [eventOf] at hdue
    split at hdue
    · split at hdue <;> cases hdue
    · split at hdue
      · rename_i hwait
        rw [hincident, Bool.not_true, Bool.false_or, Bool.and_eq_true, decide_eq_true_eq,
          decide_eq_true_eq] at hwait
        linarith [hwait.2]
      · cases hdue
  · intro c earlier hsuffix hc
    have hdue := (hevent c earlier hsuffix).symm.trans hc
    rw [eventOf] at hdue
    split at hdue
    · split at hdue
      · rename_i hopen
        exact exists_failing_of_incident (Bool.and_eq_true_iff.mp hopen).1
      · cases hdue
    · split at hdue <;> cases hdue
  · intro c earlier hsuffix hreached
    rw [hevent c earlier hsuffix, eventOf]
    have hunhealthy : c.healthy = false := by
      by_contra hhealthy
      rw [failuresOf, if_pos (by simpa using hhealthy)] at hreached
      have := settings.threshold_ok.1
      omega
    rw [failuresOf, hunhealthy, if_neg (by decide)] at hreached
    rw [hunhealthy, if_neg (by decide), hreached,
      decide_eq_true (le_refl _), Bool.true_and]
    have hswap : (settings.repeatSeconds : ℚ) ≤ c.now - lastAttemptOf earlier ↔
        lastAttemptOf earlier + settings.repeatSeconds ≤ c.now := by
      constructor
      · intro hle
        linarith
      · intro hle
        linarith
    rw [← hswap]
    split
    · rename_i hdue
      simpa using hdue
    · rename_i hdue
      simpa using hdue

/-! ## An incident without an alert -/

/-- Two failures, a recovery that is not delivered, and two failures again, newest first. -/
def flappingChecks : List Check :=
  [⟨false, 1200, none, false⟩, ⟨false, 900, none, false⟩, ⟨true, 600, some .recovered, false⟩,
    ⟨false, 300, some .failing, true⟩, ⟨false, 0, none, false⟩]

theorem monitored_flapping : Monitored .default flappingChecks (stateOf flappingChecks) := by
  have h₁ : Monitored .default (flappingChecks.drop 4) (stateOf (flappingChecks.drop 4)) :=
    .check .start (by decide +kernel) (by decide +kernel)
  have h₂ : Monitored .default (flappingChecks.drop 3) (stateOf (flappingChecks.drop 3)) :=
    .check h₁ (by decide +kernel) (by decide +kernel)
  have h₃ : Monitored .default (flappingChecks.drop 2) (stateOf (flappingChecks.drop 2)) :=
    .check h₂ (by decide +kernel) (by decide +kernel)
  have h₄ : Monitored .default (flappingChecks.drop 1) (stateOf (flappingChecks.drop 1)) :=
    .check h₃ (by decide +kernel) (by decide +kernel)
  exact .check h₄ (by decide +kernel) (by decide +kernel)

/-- The threshold is reached after a healthy check, and no failing alert is attempted: the recovery
of the incident before was not delivered. -/
theorem suppressed_incident :
    ∃ s c earlier, Monitored .default (c :: earlier) s ∧
      failuresOf (c :: earlier) = Settings.default.failureThreshold ∧ c.event = none :=
  ⟨_, _, _, monitored_flapping, by decide, rfl⟩

/-- The alerts of a history of five checks. -/
theorem flapping_alerts : Alerts .default flappingChecks := alerts_of_monitored monitored_flapping

end Infra
end OpenstackPlatform
