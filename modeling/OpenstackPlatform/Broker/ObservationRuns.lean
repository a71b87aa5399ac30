import OpenstackPlatform.Broker.ObservationSteps
import OpenstackPlatform.Library.Versions

/-!
# No stale observation survives a mutation

A probe's fingerprint is a version of what it observes (`State.ver`, `none` while the application is
not ready).  An admission adds an intent; a recorded outcome makes the time that it is recorded at
the latest one, if it is recorded in order; a retirement leaves the application not ready.  So a
version that was used does not come back (`versioned`), and a probe whose fingerprint is unchanged
had no mutation under it.

The order matters: `dispatch` reads the clock before its transaction begins.  `outcome_unnoticed` is
a run in which a configuration is saved in between; the outcome then changes neither the number of
the intents nor their latest time, and a probe that was under way writes what it observed before the
outcome as fresh.
-/

namespace OpenstackPlatform
namespace Broker
namespace Observations

open Library

/-! ## Versions -/

namespace State

/-- The version of what is observed of an application: its fingerprint, while it is ready. -/
def ver (s : State) (app : AppId) : Option (Nat × Nat) :=
  if (s.board.apps.lookup app).any fun row => row.lifecycle = .ready then some (s.generation app)
  else none

/-- What may have been a fingerprint so far: no more intents than there are, and no time that is of
the future or pending. -/
def used (s : State) (app : AppId) (v : Nat × Nat) : Prop :=
  v.1 ≤ count s.board app ∧ v.2 ≤ s.clock ∧
    ∀ f r now, s.answers.lookup f = some (r, now) → now ≠ v.2

end State

section Versions

variable {s t : State} {l : Label} {e : Event} {app : AppId}

theorem used_generation (hinv : Inv s) (app : AppId) : s.used app (s.generation app) := by
  refine ⟨Nat.le_refl _, latest_le_iff.mpr fun k _ => hinv.updated k, fun f r now ha => ?_⟩
  show now ≠ latest s.board s.updated app
  rcases latest_eq_zero_or s.board s.updated app with hzero | ⟨k, hk⟩
  · have hpos := (hinv.answers f r now ha).1
    omega
  · rw [← hk]
    exact (hinv.pending f r now ha k).symm

theorem count_le (h : Steps s l e t) (app : AppId) : count s.board app ≤ count t.board app := by
  cases h with
  | @admission l now i app' j hl hnow hj =>
    have hcount := (next_admitted hl hj).1.count app
    show count s.journal.board app ≤ count j.board app
    omega
  | @passing l j hl hj => exact (count_congr (next_passes hl hj).1).ge
  | answer hflight hanswer hretires => exact (count_congr (sameOwners_answer _ _)).ge
  | answerRetires hflight hanswer happ => exact (count_congr (sameOwners_answer _ _)).ge
  | retire hr hboard => exact (count_congr sameOwners_retireApp).ge
  | reply hnone hnow => exact Nat.le_refl _
  | missing hnone hnow => exact Nat.le_refl _
  | retireLate hr => exact Nat.le_refl _
  | start hnone hnow => exact Nat.le_refl _
  | write hprobe hnow hunchanged => exact Nat.le_refl _
  | drop hnow => exact Nat.le_refl _

theorem clock_le (h : Steps s l e t) : s.clock ≤ t.clock := by
  cases h with
  | admission hl hnow hj => exact hnow.le
  | reply hnone hnow => exact hnow.le
  | missing hnone hnow => exact hnow.le
  | start hnone hnow => exact hnow.le
  | write hprobe hnow hunchanged => exact hnow.le
  | drop hnow => exact hnow.le
  | passing hl hj => exact Nat.le_refl _
  | answer hflight hanswer hretires => exact Nat.le_refl _
  | answerRetires hflight hanswer happ => exact Nat.le_refl _
  | retire hr hboard => exact Nat.le_refl _
  | retireLate hr => exact Nat.le_refl _

/-- A pending time was pending, or is read now. -/
theorem answers_step (h : Steps s l e t) {f now : Nat} {r : Option Reply}
    (ha : t.answers.lookup f = some (r, now)) :
    s.answers.lookup f = some (r, now) ∨ s.clock < now := by
  cases h with
  | reply hnone hnow =>
    rw [Table.lookup_insert_ite] at ha
    split at ha
    · obtain ⟨-, rfl⟩ := Prod.mk.inj (Option.some.inj ha)
      exact .inr hnow
    · exact .inl ha
  | answer hflight hanswer hretires => exact .inl (lookup_of_erase ha).2
  | answerRetires hflight hanswer happ => exact .inl (lookup_of_erase ha).2
  | admission hl hnow hj => exact .inl ha
  | passing hl hj => exact .inl ha
  | missing hnone hnow => exact .inl ha
  | retire hr hboard => exact .inl ha
  | retireLate hr => exact .inl ha
  | start hnone hnow => exact .inl ha
  | write hprobe hnow hunchanged => exact .inl ha
  | drop hnow => exact .inl ha

theorem used_step (h : Steps s l e t) {v : Nat × Nat} (hused : s.used app v) : t.used app v := by
  obtain ⟨hcount, hclock, hpending⟩ := hused
  refine ⟨hcount.trans (count_le h app), hclock.trans (clock_le h), fun f r now ha => ?_⟩
  rcases answers_step h ha with hold | hnew
  · exact hpending f r now hold
  · omega

/-- The version stays when the row of the application, its intents and their times do. -/
theorem ver_congr (happs : t.board.apps.lookup app = s.board.apps.lookup app)
    (hcount : count t.board app = count s.board app)
    (hlatest : latest t.board t.updated app = latest s.board s.updated app) :
    t.ver app = s.ver app := by
  unfold State.ver State.generation
  rw [happs, hcount, hlatest]

/-- Retiring another application leaves the times of this one's intents. -/
theorem retired_of_ne {b : Board} {app' : AppId} (now : Nat) (updated : IntentId → Nat)
    {k : IntentId} (hk : (b.intents.lookup k).map Intent.app = some (some app)) (hne : app ≠ app') :
    retired b app' now updated k = updated k := by
  unfold retired
  refine if_neg ?_
  obtain ⟨row, hrow, happ⟩ := Option.map_eq_some_iff.mp hk
  rw [hrow, Option.any_some]
  unfold Board.retires
  rw [happ]
  simp [hne]

theorem ofMutation_ne {app' : Option AppId} (h : Event.ofMutation app' ≠ .mutated app) :
    app' ≠ some app := by
  rintro rfl
  exact h rfl

/-- **A step without a mutation of the application keeps its version.** -/
theorem quiet (hinv : Inv s) (h : Steps s l e t) (hquiet : e ≠ .mutated app) :
    t.ver app = s.ver app := by
  cases h with
  | @admission l now i app' j hl hnow hj =>
    have hne := ofMutation_ne hquiet
    obtain ⟨hadmits, -⟩ := next_admitted hl hj
    have hcount := hadmits.count app
    rw [if_neg hne] at hcount
    refine ver_congr (hadmits.apps app hne) hcount (latest_congr (fun k => ?_) fun k hk => ?_)
    · by_cases hki : k = i
      · subst hki
        rw [show s.board.intents.lookup k = none from hadmits.fresh]
        refine iff_of_false (fun hnew => ?_) (by simp)
        exact hne (Option.some.inj (hadmits.new.symm.trans hnew))
      · show (j.board.intents.lookup k).map Intent.app = some (some app) ↔ _
        rw [hadmits.others k hki]
        rfl
    · refine Function.update_of_ne ?_ ..
      rintro rfl
      rw [show s.board.intents.lookup k = none from hadmits.fresh] at hk
      cases hk
  | @passing l j hl hj =>
    obtain ⟨howners, happs, -⟩ := next_passes hl hj
    have happs : j.board.apps.lookup app = s.board.apps.lookup app := by
      rw [happs]
      rfl
    exact ver_congr happs (count_congr howners)
      (latest_congr howners.owned fun k _ => rfl)
  | @answer f now flight r hflight hanswer hretires =>
    have hne := ofMutation_ne hquiet
    have howners : SameOwners s.board (s.board.answer flight r) := sameOwners_answer flight r
    refine ver_congr (apps_answer r hne) (count_congr howners)
      (latest_congr howners.owned fun k hk => ?_)
    refine Function.update_of_ne ?_ ..
    rintro rfl
    rw [hinv.flights f flight hflight] at hk
    exact hne (Option.some.inj hk)
  | @answerRetires f now flight r app' hflight hanswer happ =>
    have hne : app ≠ app' := by
      rintro rfl
      exact hquiet rfl
    have hne' : flight.row.app ≠ some app := by
      rw [happ]
      exact fun heq => hne (Option.some.inj heq).symm
    have howners : SameOwners s.board (s.board.answer flight r) := sameOwners_answer flight r
    refine ver_congr (apps_answer r hne') (count_congr howners)
      (latest_congr howners.owned fun k hk => ?_)
    refine (retired_of_ne _ _ ((sameOwners_writeAnswer flight r k).trans hk) hne).trans ?_
    refine Function.update_of_ne ?_ ..
    rintro rfl
    rw [hinv.flights f flight hflight] at hk
    exact hne' (Option.some.inj hk)
  | @retire r now app' hr hboard =>
    have hne : app ≠ app' := by
      rintro rfl
      exact hquiet rfl
    have howners : SameOwners s.board (s.board.retireApp app') := sameOwners_retireApp
    exact ver_congr (apps_retireApp hne) (count_congr howners)
      (latest_congr howners.owned fun k hk => retired_of_ne _ _ hk hne)
  | reply hnone hnow => rfl
  | missing hnone hnow => rfl
  | retireLate hr => rfl
  | start hnone hnow => rfl
  | write hprobe hnow hunchanged => rfl
  | drop hnow => rfl

theorem of_inOrder {f now : Nat} {flight : Flight} {r : Option Reply}
    (hflight : s.journal.flights.lookup f = some flight)
    (hanswer : s.answers.lookup f = some (r, now)) (happ : flight.row.app = some app)
    (h : s.inOrder (.answer f) = true) {k : IntentId}
    (hk : (s.board.intents.lookup k).map Intent.app = some (some app)) (hne : k ≠ flight.intent) :
    s.updated k < now := by
  obtain ⟨row, hrow, happ'⟩ := Option.map_eq_some_iff.mp hk
  simp only [State.inOrder, hflight, hanswer, List.all_eq_true] at h
  have hentry := h ⟨k, row⟩ (Table.lookup_eq_some_iff.mp hrow)
  simp only [happ, happ', Bool.or_eq_true, beq_iff_eq, decide_eq_true_eq, bne_self_eq_false,
    Bool.false_eq_true, or_false, reduceCtorEq] at hentry
  exact hentry.resolve_left hne

/-- After an outcome that is recorded in order, its time is the latest. -/
theorem latest_answer (hinv : Inv s) {f now : Nat} {flight : Flight} {r : Option Reply}
    (hflight : s.journal.flights.lookup f = some flight)
    (hanswer : s.answers.lookup f = some (r, now)) (happ : flight.row.app = some app)
    (horder : s.inOrder (.answer f) = true) {updated : IntentId → Nat}
    (hintent : updated flight.intent = now)
    (hothers : ∀ k ≠ flight.intent, updated k = now ∨ updated k = s.updated k) :
    latest (s.board.answer flight r) updated app = now := by
  have howners : SameOwners s.board (s.board.answer flight r) := sameOwners_answer flight r
  have hown := hinv.flights f flight hflight
  rw [happ] at hown
  refine Nat.le_antisymm (latest_le_iff.mpr fun k hk => ?_) ?_
  · rw [howners k] at hk
    by_cases hne : k = flight.intent
    · rw [hne, hintent]
    · have hlt := of_inOrder hflight hanswer happ horder hk hne
      rcases hothers k hne with heq | heq
      all_goals omega
  · rw [← hintent]
    exact le_latest ((howners flight.intent).trans hown)

/-- **A mutation of the application leads to a version that was not used.** -/
theorem renews (hinv : Inv s) (h : Steps s l (.mutated app) t) (horder : s.inOrder l = true)
    {v : Nat × Nat} (hver : t.ver app = some v) : ¬ s.used app v := by
  have hv : v = t.generation app := by
    unfold State.ver at hver
    split at hver
    · exact (Option.some.inj hver).symm
    · cases hver
  rintro ⟨hcount, -, hpending⟩
  generalize he : Event.mutated app = e at h
  cases h with
  | @admission l now i app' j hl hnow hj =>
    have happ : app' = some app := by
      cases app' with
      | none => exact absurd he (by simp [Event.ofMutation])
      | some a =>
        rw [Event.ofMutation, Event.mutated.injEq] at he
        rw [he]
    have hmore := (next_admitted hl hj).1.count app
    rw [if_pos happ] at hmore
    rw [hv] at hcount
    change count j.board app ≤ count s.journal.board app at hcount
    omega
  | @answer f now flight r hflight hanswer hretires =>
    have happ : flight.row.app = some app := by
      cases happ : flight.row.app with
      | none =>
        rw [happ] at he
        exact absurd he (by simp [Event.ofMutation])
      | some a =>
        rw [happ, Event.ofMutation, Event.mutated.injEq] at he
        rw [he]
    refine hpending f r now hanswer ?_
    rw [hv]
    refine (latest_answer hinv hflight hanswer happ horder (Function.update_self ..) ?_).symm
    intro k _
    exact update_cases s.updated flight.intent k now
  | @answerRetires f now flight r app' hflight hanswer happ =>
    obtain rfl : app = app' := Event.mutated.inj he
    refine hpending f r now hanswer ?_
    rw [hv]
    refine (latest_answer hinv hflight hanswer happ horder ?_ fun k _ => ?_).symm
    · rcases retired_cases (s.board.writeAnswer flight r) app now
        (Function.update s.updated flight.intent now) flight.intent with heq | heq
      · exact heq
      · exact heq.trans (Function.update_self ..)
    · rcases retired_cases (s.board.writeAnswer flight r) app now
        (Function.update s.updated flight.intent now) k with heq | heq
      · exact .inl heq
      · exact (update_cases s.updated flight.intent k now).imp heq.trans heq.trans
  | @retire r now app' hr hboard =>
    obtain rfl : app = app' := Event.mutated.inj he
    unfold State.ver at hver
    rw [if_neg] at hver
    · cases hver
    · show ¬ ((s.board.apps.modify app _).lookup app).any _ = true
      rw [Table.lookup_modify, if_pos rfl]
      cases s.board.apps.lookup app <;> simp
  | passing hl hj => cases he
  | reply hnone hnow => cases he
  | missing hnone hnow => cases he
  | retireLate hr => cases he
  | start hnone hnow => cases he
  | write hprobe hnow hunchanged => cases he
  | drop hnow => cases he

/-- The steps of a run whose outcomes are recorded in order. -/
def orderly : State → Label × Event → State → Prop :=
  restrict State.step fun s l => s.inOrder l.1 = true

/-- **Fingerprints are versions.** -/
theorem versioned (app : AppId) :
    Versioned orderly Inv (fun s => s.ver app) (fun s => s.used app)
      (fun l => l.2 = .mutated app) where
  keeps _ _ _ hinv h := inv_step hinv (steps_of_step h.1)
  stays _ _ _ _ _ h hused := used_step (steps_of_step h.1) hused
  quiet _ _ _ hinv h hquiet := quiet hinv (steps_of_step h.1) hquiet
  renews s l t v hinv h hmarked hver := by
    have hsteps := steps_of_step h.1
    rw [hmarked] at hsteps
    exact renews hinv hsteps h.2 hver

end Versions

/-! ## Probes in a run -/

section Probes

variable {s t : State} {l : Label} {e : Event} {p : Nat} {probe : Probe}

/-- A probe that is under way started in this step, or was under way. -/
theorem probes_step (h : Steps s l e t) (hprobe : t.probes.lookup p = some probe) :
    (e = .started p probe.app ∧ probe.generation = s.generation probe.app) ∨
      (s.probes.lookup p = some probe ∧ ∀ a, e ≠ .started p a) := by
  cases h with
  | @start q cacheSeconds now app row cached hnone hnow =>
    rw [Table.lookup_insert_ite] at hprobe
    split at hprobe
    next heq =>
      cases hprobe
      exact .inl ⟨by rw [heq], rfl⟩
    next hne =>
      refine .inr ⟨hprobe, fun a heq => ?_⟩
      rw [Event.started.injEq] at heq
      exact hne heq.1.symm
  | @admission l now i app j hl hnow hj =>
    refine .inr ⟨hprobe, fun a => ?_⟩
    cases app <;> simp [Event.ofMutation]
  | answer hflight hanswer hretires =>
    refine .inr ⟨hprobe, fun a => ?_⟩
    unfold Event.ofMutation
    split <;> simp
  | passing hl hj => exact .inr ⟨hprobe, by simp⟩
  | reply hnone hnow => exact .inr ⟨hprobe, by simp⟩
  | answerRetires hflight hanswer happ => exact .inr ⟨hprobe, by simp⟩
  | missing hnone hnow => exact .inr ⟨hprobe, by simp⟩
  | retire hr hboard => exact .inr ⟨hprobe, by simp⟩
  | retireLate hr => exact .inr ⟨hprobe, by simp⟩
  | write hold hnow hunchanged => exact .inr ⟨(lookup_of_erase hprobe).2, by simp⟩
  | drop hnow => exact .inr ⟨(lookup_of_erase hprobe).2, by simp⟩

/-- A probe under way after steps that do not start it was under way before. -/
theorem probe_stays {ls : List (Label × Event)} (h : Run orderly s ls t)
    (hstarted : ∀ l ∈ ls, ∀ a, l.2 ≠ .started p a) (hprobe : t.probes.lookup p = some probe) :
    s.probes.lookup p = some probe := by
  induction h with
  | nil => exact hprobe
  | @snoc ls t u l hrun hstep ih =>
    rcases probes_step (steps_of_step hstep.1) hprobe with ⟨heq, -⟩ | ⟨hold, -⟩
    · exact absurd heq (hstarted l (by simp) _)
    · exact ih (fun l' hl' => hstarted l' (List.mem_append_left _ hl')) hold

/-- A probe that writes is under way, and its fingerprint is the version. -/
theorem of_wrote {app : AppId} (h : Steps s l (.wrote p app) t) :
    ∃ probe, s.probes.lookup p = some probe ∧ probe.app = app ∧
      s.ver app = some probe.generation := by
  generalize he : Event.wrote p app = e at h
  cases h with
  | @write q observedAt now probe answer deployed body hprobe hnow hunchanged =>
    obtain ⟨rfl, rfl⟩ := Event.wrote.inj he
    refine ⟨probe, hprobe, rfl, ?_⟩
    unfold State.unchanged at hunchanged
    rw [Bool.and_eq_true, beq_iff_eq] at hunchanged
    obtain ⟨hgeneration, hready⟩ := hunchanged
    unfold State.ver
    rw [if_pos, hgeneration]
    cases hrow : s.board.apps.lookup probe.app with
    | none =>
      rw [hrow] at hready
      cases hready
    | some row =>
      rw [hrow, Option.any_some, Bool.and_eq_true, beq_iff_eq] at hready
      exact decide_eq_true hready.1
  | @admission l now i app j hl hnow hj =>
    cases app <;> exact absurd he (by simp [Event.ofMutation])
  | @answer f now flight r hflight hanswer hretires =>
    cases happ : flight.row.app with
    | none => exact absurd (happ ▸ he) (by simp [Event.ofMutation])
    | some a => exact absurd (happ ▸ he) (by simp [Event.ofMutation])
  | passing hl hj => cases he
  | reply hnone hnow => cases he
  | answerRetires hflight hanswer happ => cases he
  | missing hnone hnow => cases he
  | retire hr hboard => cases he
  | retireLate hr => cases he
  | start hnone hnow => cases he
  | drop hnow => cases he

theorem lookup_invalidate {observations : Table AppId Observation} {app : AppId}
    {app' : Option AppId} {row : Observation}
    (h : (invalidate observations app').lookup app = some row) (hfresh : 0 < row.updated) :
    observations.lookup app = some row ∧ app' ≠ some app := by
  cases app' with
  | none => exact ⟨h, by simp⟩
  | some a =>
    change (observations.modify a _).lookup app = some row at h
    rw [Table.lookup_modify] at h
    split at h
    next =>
      obtain ⟨row', -, rfl⟩ := Option.map_eq_some_iff.mp h
      exact absurd hfresh (Nat.lt_irrefl 0)
    next hne => exact ⟨h, fun heq => hne (Option.some.inj heq).symm⟩

/-- A fresh row is written in this step, or was there and its application has no mutation. -/
theorem rows_step (h : Steps s l e t) {app : AppId} {row : Observation}
    (hrow : t.observations.lookup app = some row) (hfresh : 0 < row.updated) :
    (∃ p probe, e = .wrote p app ∧ s.probes.lookup p = some probe ∧ probe.app = app) ∨
      (s.observations.lookup app = some row ∧ e ≠ .mutated app) := by
  cases h with
  | @write q observedAt now probe answer deployed body hprobe hnow hunchanged =>
    rw [Table.lookup_insert_ite] at hrow
    split at hrow
    next heq => exact .inl ⟨q, probe, by rw [heq], hprobe, heq.symm⟩
    next => exact .inr ⟨hrow, by simp⟩
  | @admission l now i app' j hl hnow hj =>
    obtain ⟨hold, hne⟩ := lookup_invalidate hrow hfresh
    refine .inr ⟨hold, fun heq => hne ?_⟩
    cases app' with
    | none => exact absurd heq (by simp [Event.ofMutation])
    | some a => rw [Event.mutated.inj heq]
  | @answer f now flight r hflight hanswer hretires =>
    obtain ⟨hold, hne⟩ := lookup_invalidate hrow hfresh
    refine .inr ⟨hold, fun heq => hne ?_⟩
    cases happ : flight.row.app with
    | none =>
      rw [happ] at heq
      exact absurd heq (by simp [Event.ofMutation])
    | some a =>
      rw [happ] at heq
      rw [Event.mutated.inj heq]
  | @answerRetires f now flight r app' hflight hanswer happ =>
    obtain ⟨hne, hold⟩ := lookup_of_erase hrow
    exact .inr ⟨(lookup_invalidate hold hfresh).1, fun heq => hne (Event.mutated.inj heq).symm⟩
  | @retire r now app' hr hboard =>
    obtain ⟨hne, hold⟩ := lookup_of_erase hrow
    exact .inr ⟨hold, fun heq => hne (Event.mutated.inj heq).symm⟩
  | passing hl hj => exact .inr ⟨hrow, by simp⟩
  | reply hnone hnow => exact .inr ⟨hrow, by simp⟩
  | missing hnone hnow => exact .inr ⟨hrow, by simp⟩
  | retireLate hr => exact .inr ⟨hrow, by simp⟩
  | start hnone hnow => exact .inr ⟨hrow, by simp⟩
  | drop hnow => exact .inr ⟨hrow, by simp⟩

end Probes

/-! ## The property of runs -/

/-- What an application's probe wrote: it started, and wrote after `mid`. -/
def Written (es : List Event) (p : Nat) (app : AppId) (mid after : List Event) : Prop :=
  (∃ before, es = before ++ .started p app :: (mid ++ .wrote p app :: after)) ∧
    ∀ a, .started p a ∉ mid

/-- **No stale observation survives a mutation.**  Between the start of a probe and its write no
mutation of the application was admitted or had its outcome recorded; and a cached row that is fresh
was written by a probe, with no mutation since the probe started. -/
structure NoneStale (es : List Event) (s : State) : Prop where
  written : ∀ p app mid after, Written es p app mid after → .mutated app ∉ mid
  cached : ∀ app row, s.observations.lookup app = some row → 0 < row.updated →
    ∃ p mid after, Written es p app mid after ∧ .mutated app ∉ mid ∧ .mutated app ∉ after

theorem not_mutated_of_written {ls : List (Label × Event)} {t : State} (h : Run orderly {} ls t)
    {p : Nat} {app : AppId} {mid after : List Event}
    (hwritten : Written (ls.map Prod.snd) p app mid after) : .mutated app ∉ mid := by
  obtain ⟨⟨before, htrace⟩, hmid⟩ := hwritten
  obtain ⟨lb, lrest, rfl, -, hrest⟩ := List.map_eq_append_iff.mp htrace
  obtain ⟨l₁, ls₁, rfl, hl₁, hls₁⟩ := List.map_eq_cons_iff.mp hrest
  obtain ⟨lm, lend, rfl, rfl, hend⟩ := List.map_eq_append_iff.mp hls₁
  obtain ⟨l₂, la, rfl, hl₂, -⟩ := List.map_eq_cons_iff.mp hend
  obtain ⟨s₀, hbefore, hrun⟩ := h.split
  obtain ⟨s₁, hstart, hrun⟩ := hrun.uncons
  obtain ⟨s₂, hmidrun, hrun⟩ := hrun.split
  obtain ⟨s₃, hwrite, -⟩ := hrun.uncons
  have hinv₀ : Inv s₀ := (versioned app).keeps_run hbefore inv_initial
  have hinv₁ : Inv s₁ := inv_step hinv₀ (steps_of_step hstart.1)
  have hwrote := steps_of_step hwrite.1
  rw [hl₂] at hwrote
  obtain ⟨probe, hprobe, rfl, hver⟩ := of_wrote hwrote
  have hfirst : s₁.probes.lookup p = some probe := by
    refine probe_stays hmidrun (fun l hl a heq => hmid a ?_) hprobe
    rw [← heq]
    exact List.mem_map_of_mem hl
  have hused : s₁.used probe.app probe.generation := by
    rcases probes_step (steps_of_step hstart.1) hfirst with ⟨-, hgeneration⟩ | ⟨-, hnot⟩
    · rw [hgeneration]
      exact used_step (steps_of_step hstart.1) (used_generation hinv₀ probe.app)
    · exact absurd hl₁ (hnot probe.app)
  intro hmem
  obtain ⟨l, hl, heq⟩ := List.mem_map.mp hmem
  exact (versioned probe.app).unmarked hmidrun hinv₁ hused hver l hl heq

/-- Probes under way started in the trace, and fresh rows were written in it. -/
structure Recorded (es : List Event) (s : State) : Prop where
  probes : ∀ p probe, s.probes.lookup p = some probe →
    ∃ before mid, es = before ++ .started p probe.app :: mid ∧ ∀ a, .started p a ∉ mid
  rows : ∀ app row, s.observations.lookup app = some row → 0 < row.updated →
    ∃ p mid after, Written es p app mid after ∧ .mutated app ∉ after

theorem recorded_step {es : List Event} {s t : State} {l : Label} {e : Event}
    (hrecorded : Recorded es s) (h : Steps s l e t) : Recorded (es ++ [e]) t where
  probes p probe hprobe := by
    rcases probes_step h hprobe with ⟨rfl, -⟩ | ⟨hold, hnot⟩
    · exact ⟨es, [], rfl, fun a => List.not_mem_nil⟩
    · obtain ⟨before, mid, rfl, hmid⟩ := hrecorded.probes p probe hold
      refine ⟨before, mid ++ [e], by simp, fun a hmem => ?_⟩
      rcases List.mem_append.mp hmem with hmem | hmem
      · exact hmid a hmem
      · exact hnot a (List.mem_singleton.mp hmem).symm
  rows app row hrow hfresh := by
    rcases rows_step h hrow hfresh with ⟨p, probe, rfl, hprobe, rfl⟩ | ⟨hold, hnot⟩
    · obtain ⟨before, mid, rfl, hmid⟩ := hrecorded.probes p probe hprobe
      exact ⟨p, mid, [], ⟨⟨before, by simp⟩, hmid⟩, List.not_mem_nil⟩
    · obtain ⟨p, mid, after, ⟨⟨before, rfl⟩, hmid⟩, hafter⟩ := hrecorded.rows app row hold hfresh
      refine ⟨p, mid, after ++ [e], ⟨⟨before, by simp⟩, hmid⟩, fun hmem => ?_⟩
      rcases List.mem_append.mp hmem with hmem | hmem
      · exact hafter hmem
      · exact hnot (List.mem_singleton.mp hmem).symm

theorem recorded_run {ls : List (Label × Event)} {t : State} (h : Run orderly {} ls t) :
    Recorded (ls.map Prod.snd) t := by
  refine h.invariant_trace (I := fun ls t => Recorded (ls.map Prod.snd) t)
    ⟨fun p probe hprobe => absurd hprobe (by simp), fun app row hrow => absurd hrow (by simp)⟩ ?_
  intro ls t l u hrecorded hstep
  rw [List.map_append]
  exact recorded_step hrecorded (steps_of_step hstep.1)

/-- **No stale observation survives a mutation, while outcomes are recorded in order.**  A probe
compares fingerprints instead of holding a lock, which is enough while every mutation changes the
fingerprint; an outcome that carries an earlier time need not. -/
theorem none_stale {ls : List (Label × Event)} {t : State}
    (h : Run (restrict State.step fun s l => s.inOrder l.1 = true) {} ls t) :
    NoneStale (ls.map Prod.snd) t where
  written _ _ _ _ hwritten := not_mutated_of_written h hwritten
  cached app row hrow hfresh := by
    obtain ⟨p, mid, after, hwritten, hafter⟩ := (recorded_run h).rows app row hrow hfresh
    exact ⟨p, mid, after, hwritten, not_mutated_of_written h hwritten, hafter⟩

/-! ## A configuration that is saved while an outcome waits -/

/-- What the controller answers about an application without an active deployment. -/
def idle : AppAnswer where
  status := 200
  applicationId := some 10
  url := some { text := "https://app.example", scheme := "https", hostname := some "app.example" }
  live := some {}

/-- An application is adopted, and a deployment is asked for and taken up. -/
def deployment : List Label :=
  [.admission (.adopt 1 10 5 5 1 { storageBindings := [] }) 1,
    .admission (.record 2 { user := 5, app := some 10, kind := .deploy, controllerKey := 2 }) 2,
    .passing (.take 100 2 false true 3 5)]

/-- The controller accepts the deployment, the broker records it, and a probe follows. -/
def recordedInOrder : List Label :=
  deployment ++
    [.reply 100 (some { status := 202, operationId := some 2 }) 4, .answer 100,
      .start 200 10 { owner := 5, lifecycle := .ready, revision := 1 } none 2 5,
      .finish 200 (some idle) none 6 7]

theorem none_stale_deployment : ∃ (ls : List (Label × Event)) (t : State),
    NoneStale (ls.map Prod.snd) t ∧
    (t.observations.lookup 10).map Observation.updated = some 7 := by
  obtain ⟨⟨t, ls⟩, hrun, hrow⟩ := Option.map_eq_some_iff.mp
    (by decide +kernel : ((runInputs (guardedNext State.next State.inOrder) {}
      recordedInOrder).map fun r => (r.1.observations.lookup 10).map Observation.updated) =
        some (some 7))
  exact ⟨ls, t, none_stale (Run.of_guardedNext hrun), hrow⟩

/-- A configuration is saved between the controller's answer and the transaction that records it,
and a probe starts before that transaction. -/
def recordedLate : List Label :=
  deployment ++
    [.reply 100 (some { status := 202, operationId := some 2 }) 4,
      .admission (.save 3 10 5 false 1 { storageBindings := [] }) 5,
      .start 200 10 { owner := 5, lifecycle := .ready, revision := 2 } none 2 6,
      .answer 100, .finish 200 (some idle) none 7 8]

/-- **An outcome that a probe does not notice.**  The outcome of the deployment is recorded between
the start of a probe and its write, and the row that the probe writes is fresh. -/
theorem outcome_unnoticed : ∃ (ls : List (Label × Event)) (t : State),
    Run State.step {} ls t ∧ ¬ NoneStale (ls.map Prod.snd) t ∧
    (t.observations.lookup 10).map Observation.updated = some 8 := by
  obtain ⟨⟨t, ls⟩, hrun, hend⟩ := Option.map_eq_some_iff.mp
    (by decide +kernel : ((runInputs State.next {} recordedLate).map fun r =>
      (r.2.map Prod.snd, (r.1.observations.lookup 10).map Observation.updated)) =
        some ([.mutated 10, .mutated 10, .silent, .silent, .mutated 10, .started 200 10,
          .mutated 10, .wrote 200 10], some 8))
  obtain ⟨htrace, hrow⟩ := Prod.mk.inj hend
  refine ⟨ls, t, Run.of_runInputs hrun, fun hnone => ?_, hrow⟩
  refine hnone.written 200 10 [.mutated 10] [] ⟨⟨?_, ?_⟩, by simp⟩ List.mem_cons_self
  · exact [.mutated 10, .mutated 10, .silent, .silent, .mutated 10]
  · exact htrace

end Observations
end Broker
end OpenstackPlatform
