import OpenstackPlatform.Controller.FlavorCache

/-!
# Runs of the flavor cache

Any order of steps of the threads, the workers and `close`.  A call returns only what an
observation of its cache and key gave; one observation of an entry goes on at a time, and the next
one starts after the pause; the pool has at most two workers and 32 slots.

* `sound_step`: a step keeps what holds in every state.
* `Origin`, `recorded_step`: where a value comes from.
* `Latest`, `current_step`: a cache has the latest value of a key.
* `Ages`, `ages_step`: what a step does to an entry.
* `latest_observations`, `cached_observations`: the main results.
-/

namespace OpenstackPlatform
namespace Controller
namespace FlavorCache

open Library

variable {γ κ ρ ι : Type}

/-! ## Steps -/

section Sections

variable {capacity : γ → ℕ} {s s₁ s' : State γ κ ρ ι} {g : γ} {key : κ} {e : ℕ} {x : Entry γ κ ρ}
  {now : ℚ}

theorem calls_begin (hx : s.heap[e]? = some x) {c : Call γ κ}
    (hc : CallHolds s.heap s.promises c) :
    CallHolds (s.begin e x).heap (s.begin e x).promises c := by
  refine hc.mono (fun e' y hy => ?_) fun f p hp => ⟨p, getElem?_append_of_some hp, rfl⟩
  by_cases heq : e' = e
  · subst heq
    cases hx.symm.trans hy
    exact ⟨_, getElem?_set_same hx, rfl, rfl⟩
  · exact ⟨y, (getElem?_set_other heq).trans hy, rfl, rfl⟩

theorem not_leads_of_free {i : ι} (h : s.thread i = none) (t : Task) : ¬s.leads i t := by
  rintro ⟨_, _, hi⟩
  rw [h] at hi
  cases hi

theorem not_leads_of_awaiting {i : ι} {f : ℕ} {since : ℚ}
    (h : s.thread i = some ⟨g, key, .awaiting f since⟩) (t : Task) : ¬s.leads i t := by
  rintro ⟨_, _, hi⟩
  rw [h] at hi
  cases hi

/-- The entries and the futures after an observation. -/
theorem calls_observed {t : Task} {outcome : Option ρ} (hx : s.heap[t.entry]? = some x)
    {c : Call γ κ} (hc : CallHolds s.heap s.promises c) :
    CallHolds (s.observed t x outcome now).heap (s.observed t x outcome now).promises c := by
  obtain ⟨hcache, hkey, -⟩ := x.observed_fields outcome now
  refine hc.mono (fun e y hy => ?_) fun f p hp => ?_
  · by_cases heq : e = t.entry
    · subst heq
      cases hx.symm.trans hy
      exact ⟨_, getElem?_set_same hx, hcache, hkey⟩
    · exact ⟨y, (getElem?_set_other heq).trans hy, rfl, rfl⟩
  · by_cases heq : t.future = f
    · subst heq
      refine ⟨{ p with outcome := some outcome }, ?_, rfl⟩
      rw [State.observed, List.getElem?_modify_eq, hp]
      rfl
    · exact ⟨p, by rw [State.observed, List.getElem?_modify_ne _ _ heq, hp], rfl⟩

variable [DecidableEq κ]

theorem sound_initial (capacity : γ → ℕ) {clock : ℚ} (hclock : 0 ≤ clock) :
    Sound capacity (State.initial clock : State γ κ ρ ι) where
  clock := hclock
  store := {
    bounded := fun _ => Nat.zero_le _
    listed := fun _ _ _ h => nomatch h
    retained := fun _ _ h => nomatch h
    result := fun _ _ _ h => nomatch h
    owned := fun _ _ h => nomatch h
    fresh := fun _ _ h => nomatch h
    ended := fun _ _ _ h => nomatch h
    pending := fun _ _ h => nomatch h }
  work := {
    work := fun t => by
      constructor
      · rintro (h | ⟨_, _, _, h⟩) <;> cases h
      · rintro ⟨_, h, -⟩
        cases h
    nodup := List.nodup_nil
    alone := fun _ _ _ ⟨_, _, h⟩ => nomatch h
    apart := fun _ _ ⟨_, _, h⟩ => nomatch h }
  calls := fun _ _ h => nomatch h
  slots := rfl
  workers := Nat.zero_le _
  stopped := .inl rfl

theorem Sound.tick (h : Sound capacity s) (hclock : s.clock ≤ now) : Sound capacity (s.tick now) :=
  { h with
    clock := h.clock.trans hclock
    store := h.store.mono hclock }

/-- The entry that `_entry` returns. -/
theorem Sound.object (h : Sound capacity s₁) (hlisted : (s₁.entries g).lookup key = some e)
    (hx : s₁.heap[e]? = some x) : x.cache = g ∧ x.key = key := by
  obtain ⟨y, hy, hsame⟩ := h.store.listed g key e hlisted
  cases hx.symm.trans hy
  exact hsame

theorem Sound.startBehind (h : Sound capacity s) (hclock : s.clock ≤ now)
    (hlisted : (s.entries x.cache).lookup x.key = some e) (hx : s.heap[e]? = some x) :
    Sound capacity ((s.startBehind e x now).tick now) := by
  rw [State.startBehind]
  split
  · exact h.tick hclock
  · rename_i hstart
    rw [not_or, not_or, Bool.not_eq_true] at hstart
    obtain ⟨hdue, -, hslots⟩ := hstart
    have hidle := Entry.idle_of_due hdue
    have hsum := h.slots
    refine ⟨h.clock.trans hclock, h.store.begin hclock hx hlisted hdue, ?_,
      fun i c hi => calls_begin hx (h.calls i c hi), ?_, h.workers, h.stopped⟩
    · refine (h.work.submit (n := s.promises.length) hx hidle).perm ?_
      rw [State.tasks, State.tasks, State.tick]
      simp only [← List.append_assoc]
      exact (List.perm_append_singleton _ _).symm
    · show s.slots - 1 + (s.queue ++ [_]).length + s.running.length + s.releasing = 32
      rw [List.length_append, List.length_singleton]
      omega

theorem Sound.ran (h : Sound capacity s) (hclock : s.clock ≤ now) {t : Task} {outcome : Option ρ}
    (hrunning : t ∈ s.running) (hx : s.heap[t.entry]? = some x) :
    Sound capacity { s.observed t x outcome now with
      running := s.running.erase t
      releasing := s.releasing + 1 } := by
  obtain ⟨y, hy, -, hresult⟩ := (h.work.work t).mp (.inl (List.mem_append_left _ hrunning))
  cases hx.symm.trans hy
  have hlength := List.length_erase_of_mem hrunning
  have hpos := List.length_pos_of_mem hrunning
  have hslots := h.slots
  have hworkers := h.workers
  refine ⟨h.clock.trans hclock, h.store.observed hclock hx hresult, ?_,
    fun j c hj => calls_observed hx (h.calls j c hj), ?_, ?_, h.stopped⟩
  · refine h.work.complete (x.observed_pending outcome now) ?_
    rw [State.tasks, State.tasks, ← List.cons_append]
    exact (List.perm_cons_erase hrunning).append_right _
  · show s.slots + s.queue.length + (s.running.erase t).length + (s.releasing + 1) = 32
    omega
  · show (s.running.erase t).length + (s.releasing + 1) ≤ 2
    omega

variable [DecidableEq γ]

/-- What `_entry` does. -/
theorem entry_cases (hbounded : (s.entries g).keys.length ≤ capacity g)
    (h : s.entry capacity g key = some (s₁, e)) :
    ((s.entries g).lookup key = some e ∧
        s₁ = { s with entries := Function.update s.entries g ((s.entries g).insert key e) }) ∨
      (s.entries g).lookup key = none ∧ e = s.heap.length ∧ ∃ t : Table κ ℕ, s₁ = s.make g key t ∧
        t.keys.length < capacity g ∧
        (∀ k e', t.lookup k = some e' → (s.entries g).lookup k = some e') ∧
        ∀ k (e' : ℕ) (x : Entry γ κ ρ), (s.entries g).lookup k = some e' → s.heap[e']? = some x →
          x.pending = true → t.lookup k = some e' := by
  rw [State.entry] at h
  split at h
  · rename_i e' hlookup
    cases h
    exact .inl ⟨hlookup, rfl⟩
  · rename_i hlookup
    refine .inr ⟨hlookup, ?_⟩
    split at h
    · obtain ⟨k, hk, hs⟩ := Option.map_eq_some_iff.mp h
      obtain ⟨rfl, rfl⟩ := Prod.mk.inj hs
      obtain ⟨r, hr, rfl⟩ := Option.map_eq_some_iff.mp hk
      have hmem : (s.entries g).lookup r.1 = some r.2 :=
        Table.lookup_eq_some_iff.mpr (List.mem_reverse.mp (List.mem_of_find?_eq_some hr))
      have hlength := length_keys_erase_of_lookup hmem
      refine ⟨rfl, _, rfl, by omega, fun k e' hk => ?_, fun k e' x hk hx hpending => ?_⟩
      · rw [Table.lookup_erase_ite] at hk
        split at hk
        · cases hk
        · exact hk
      · rw [Table.lookup_erase_ite, if_neg]
        · exact hk
        · rintro rfl
          cases hmem.symm.trans hk
          have hidle := List.find?_some hr
          rw [State.isPending, hx, Option.any_some, hpending] at hidle
          cases hidle
    · cases h
      exact ⟨rfl, _, rfl, by omega, fun _ _ hk => hk, fun _ _ _ hk _ _ => hk⟩

/-- After `_entry` the entry of the key is in its cache. -/
theorem Sound.entry (h : Sound capacity s) (he : s.entry capacity g key = some (s₁, e)) :
    Sound capacity s₁ ∧ (s₁.entries g).lookup key = some e ∧ s₁.thread = s.thread ∧
      s₁.clock = s.clock := by
  obtain ⟨hlookup, rfl⟩ | ⟨hlookup, rfl, t, rfl, hlength, hsub, hkeep⟩ :=
    entry_cases (h.store.bounded g) he
  · refine ⟨{ h with store := h.store.touch hlookup }, ?_, rfl, rfl⟩
    show (Function.update s.entries g _ g).lookup key = _
    rw [Function.update_self, AList.lookup_insert]
  · refine ⟨{ h with
      store := h.store.make hlookup hlength hsub hkeep
      work := ?_
      calls := fun i c hi => (h.calls i c hi).mono
        (fun e x hx => ⟨x, getElem?_append_of_some hx, rfl, rfl⟩) fun f p hp => ⟨p, hp, rfl⟩ },
      ?_, rfl, rfl⟩
    · exact { h.work with work := fun t => (h.work.work t).trans (works_made g key t).symm }
    · show (Function.update s.entries g _ g).lookup key = _
      rw [Function.update_self, AList.lookup_insert]

end Sections

section Calls

variable {capacity : γ → ℕ} {s s₁ s' : State γ κ ρ ι} {g : γ} {key : κ} {e : ℕ} {x : Entry γ κ ρ}
  {now : ℚ}

variable [DecidableEq ι]

theorem leads_goto_of_not {i : ι} {c : Option (Call γ κ)} (hold : ∀ t, ¬s.leads i t)
    (hnew : ∀ g key t, c ≠ some ⟨g, key, .leading t⟩) (j : ι) (t : Task) :
    (s.goto i c).leads j t ↔ s.leads j t := by
  by_cases hj : j = i
  · subst hj
    constructor
    · rintro ⟨g, key, h⟩
      rw [State.goto_self] at h
      exact absurd h (hnew g key t)
    · exact fun h => absurd h (hold t)
  · constructor
    · rintro ⟨g, key, h⟩
      rw [State.goto_of_ne hj] at h
      exact ⟨g, key, h⟩
    · rintro ⟨g, key, h⟩
      refine ⟨g, key, ?_⟩
      rw [State.goto_of_ne hj]
      exact h

variable [DecidableEq κ]

/-- A thread that does not lead goes to another stage. -/
theorem Sound.goto (h : Sound capacity s) {i : ι} {c : Option (Call γ κ)}
    (hold : ∀ t, ¬s.leads i t) (hnew : ∀ g key t, c ≠ some ⟨g, key, .leading t⟩)
    (hcall : ∀ d, c = some d → CallHolds s.heap s.promises d) : Sound capacity (s.goto i c) := by
  have hleads := leads_goto_of_not hold hnew
  refine { h with work := ?_, calls := fun j d hj => ?_ }
  · refine ⟨fun t => ?_, h.work.nodup, fun j k t hj hk => ?_, fun j t hj => ?_⟩
    · simp only [hleads]
      exact h.work.work t
    · exact h.work.alone j k t ((hleads j t).mp hj) ((hleads k t).mp hk)
    · exact h.work.apart j t ((hleads j t).mp hj)
  · by_cases heq : j = i
    · subst heq
      rw [State.goto_self] at hj
      exact hcall d hj
    · rw [State.goto_of_ne heq] at hj
      exact h.calls j d hj

/-- A thread starts the observation of an entry and leads. -/
theorem Sound.lead (h : Sound capacity s) (hclock : s.clock ≤ now) {i : ι}
    (free : s.thread i = none) (hlisted : (s.entries g).lookup key = some e)
    (hx : s.heap[e]? = some x) (hdue : x.rests now = false) :
    Sound capacity (((s.begin e x).goto i
      (some ⟨g, key, .leading ⟨e, s.promises.length⟩⟩)).tick now) := by
  have hidle := Entry.idle_of_due hdue
  obtain ⟨rfl, rfl⟩ := h.object hlisted hx
  refine ⟨h.clock.trans hclock, h.store.begin hclock hx hlisted hdue, ?_, fun j c hj => ?_, h.slots,
    h.workers, h.stopped⟩
  · refine h.work.lead (i := i) hx hidle fun j t => ?_
    by_cases hj : j = i
    · subst hj
      constructor
      · rintro ⟨g', key', hlead⟩
        rw [State.tick_thread, State.goto_self] at hlead
        cases Option.some.inj hlead
        exact .inr ⟨rfl, rfl⟩
      · rintro (hold | ⟨-, rfl⟩)
        · exact absurd hold (not_leads_of_free free t)
        · refine ⟨x.cache, x.key, ?_⟩
          rw [State.tick_thread, State.goto_self]
    · constructor
      · rintro ⟨g', key', hlead⟩
        rw [State.tick_thread, State.goto_of_ne hj] at hlead
        exact .inl ⟨g', key', hlead⟩
      · rintro (⟨g', key', hlead⟩ | ⟨heq, -⟩)
        · refine ⟨g', key', ?_⟩
          rw [State.tick_thread, State.goto_of_ne hj]
          exact hlead
        · exact absurd heq hj
  · by_cases heq : j = i
    · subst heq
      rw [State.tick_thread, State.goto_self] at hj
      cases hj
      refine ⟨fun t ht => ?_, fun f since hf => nomatch hf⟩
      obtain rfl := Stage.leading.inj ht
      exact ⟨_, getElem?_set_same hx, rfl, rfl⟩
    · rw [State.tick_thread, State.goto_of_ne heq] at hj
      exact calls_begin hx (h.calls j c hj)

theorem Sound.led (h : Sound capacity s) (hclock : s.clock ≤ now) {i : ι} {t : Task}
    {outcome : Option ρ} (hi : s.thread i = some ⟨g, key, .leading t⟩)
    (hx : s.heap[t.entry]? = some x) :
    Sound capacity ((s.observed t x outcome now).goto i
      (some ⟨g, key, .awaiting t.future now⟩)) := by
  have hlead : s.leads i t := ⟨g, key, hi⟩
  obtain ⟨y, hy, -, hresult⟩ := (h.work.work t).mp (.inr ⟨i, hlead⟩)
  cases hx.symm.trans hy
  obtain ⟨hcache, hkey, -⟩ := x.observed_fields outcome now
  refine ⟨h.clock.trans hclock, h.store.observed hclock hx hresult, ?_, fun j c hj => ?_,
    h.slots, h.workers, h.stopped⟩
  · refine h.work.led (x.observed_pending outcome now) hlead (fun j t' => ?_) fun t' => ?_
    · by_cases hj : j = i
      · subst hj
        constructor
        · rintro ⟨g', key', hlead'⟩
          rw [State.goto_self] at hlead'
          cases Option.some.inj hlead'
        · exact fun hn => absurd rfl hn.2
      · constructor
        · rintro ⟨g', key', hlead'⟩
          rw [State.goto_of_ne hj] at hlead'
          exact ⟨⟨g', key', hlead'⟩, hj⟩
        · rintro ⟨⟨g', key', hlead'⟩, -⟩
          refine ⟨g', key', ?_⟩
          rw [State.goto_of_ne hj]
          exact hlead'
    · rintro ⟨g', key', hi'⟩
      rw [hi] at hi'
      cases Option.some.inj hi'
      rfl
  · by_cases heq : j = i
    · subst heq
      rw [State.goto_self] at hj
      cases hj
      refine ⟨(fun t' ht' => nomatch ht'), fun f since hf => ?_⟩
      obtain ⟨rfl, -⟩ := Stage.awaiting.inj hf
      obtain ⟨z, hz, hzcache, hzkey⟩ := (h.calls j _ hi).leading t rfl
      cases hx.symm.trans hz
      obtain ⟨p, hp, hentry, -⟩ := h.store.result _ _ _ hx hresult
      refine ⟨{ p with outcome := some outcome }, x.observed outcome now, ?_, ?_,
        hcache.trans hzcache, hkey.trans hzkey⟩
      · rw [State.goto, State.observed, List.getElem?_modify_eq, hp]
        rfl
      · show (s.heap.set t.entry _)[p.entry]? = _
        rw [hentry]
        exact getElem?_set_same hx
    · rw [State.goto_of_ne heq] at hj
      exact calls_observed hx (h.calls j c hj)

variable [DecidableEq γ]

/-- Every step keeps what holds. -/
theorem sound_step {l : Label γ κ ρ ι} (h : Sound capacity s) (hstep : Step capacity s l s') :
    Sound capacity s' := by
  cases hstep with
  | exhausted _ hclock _ => exact h.tick hclock
  | @hit s₁ i g key now e x v _ hclock he hx _ =>
    obtain ⟨h₁, hlisted, -, hsame⟩ := h.entry he
    obtain ⟨rfl, rfl⟩ := h₁.object hlisted hx
    exact h₁.startBehind (hsame ▸ hclock) hlisted hx
  | @lead s₁ i g key now e x free hclock he hx _ hdue =>
    obtain ⟨h₁, hlisted, hthread, hsame⟩ := h.entry he
    exact h₁.lead (hsame ▸ hclock) (hthread ▸ free) hlisted hx hdue
  | @join s₁ i g key now e f x free hclock he hx _ _ hf =>
    obtain ⟨h₁, hlisted, hthread, hsame⟩ := h.entry he
    refine Sound.tick ?_ (hsame ▸ hclock)
    refine h₁.goto (not_leads_of_free (hthread ▸ free)) (fun _ _ _ hc => nomatch hc) fun d hd => ?_
    cases hd
    refine ⟨(fun t ht => nomatch ht), fun f' since hf' => ?_⟩
    obtain ⟨rfl, -⟩ := Stage.awaiting.inj hf'
    obtain ⟨p, hp, hentry, -⟩ := h₁.store.result e x f hx hf
    exact ⟨p, x, hp, hentry ▸ hx, h₁.object hlisted hx⟩
  | assertion _ hclock he _ _ _ _ =>
    obtain ⟨h₁, -, -, hsame⟩ := h.entry he
    exact h₁.tick (hsame ▸ hclock)
  | @prewarm s₁ g key now e x hclock he hx =>
    obtain ⟨h₁, hlisted, -, hsame⟩ := h.entry he
    obtain ⟨rfl, rfl⟩ := h₁.object hlisted hx
    exact h₁.startBehind (hsame ▸ hclock) hlisted hx
  | @refresh g key now e x hclock hlisted hx =>
    obtain ⟨rfl, rfl⟩ := h.object hlisted hx
    exact h.startBehind hclock hlisted hx
  | @take t rest hqueue hidle =>
    have hslots := h.slots
    rw [hqueue, List.length_cons] at hslots
    refine { h with work := h.work.perm ?_, slots := ?_, workers := ?_ }
    · rw [State.tasks, State.tasks, hqueue]
      simp only [List.append_assoc]
      refine List.Perm.append_left _ ?_
      exact List.perm_middle
    · show s.slots + rest.length + (s.running ++ [t]).length + s.releasing = 32
      rw [List.length_append, List.length_singleton]
      omega
    · show (s.running ++ [t]).length + s.releasing ≤ 2
      rw [List.length_append, List.length_singleton]
      omega
  | ran hrunning hx hclock => exact h.ran hclock hrunning hx
  | @release n hn =>
    have hslots := h.slots
    have hworkers := h.workers
    refine { h with slots := ?_, workers := ?_ }
    · show s.slots + 1 + s.queue.length + s.running.length + n = 32
      omega
    · show s.running.length + n ≤ 2
      omega
  | led hi hx hclock => exact h.led hclock hi hx
  | finish hi _ _ =>
    exact h.goto (c := none) (not_leads_of_awaiting hi) (fun _ _ _ hc => nomatch hc)
      fun _ hd => nomatch hd
  | expire hi _ _ hclock _ =>
    exact (h.goto (c := none) (not_leads_of_awaiting hi) (fun _ _ _ hc => nomatch hc)
      fun _ hd => nomatch hd).tick hclock
  | close => exact { h with stopped := .inr rfl }
  | @cancel t rest hclosed hqueue =>
    have hslots := h.slots
    rw [hqueue, List.length_cons] at hslots
    refine { h with work := h.work.perm ?_, slots := ?_, stopped := .inr hclosed }
    · rw [State.tasks, State.tasks, hqueue]
      simp only [List.append_assoc, List.singleton_append]
      exact List.Perm.refl _
    · show s.slots + 1 + rest.length + s.running.length + s.releasing = 32
      omega

end Calls

/-! ## Where a value comes from -/

section Origins

/-- The label is the end of an observation of the key that returned the value. -/
def Label.Observes (l : Label γ κ ρ ι) (g : γ) (key : κ) (v : ρ) : Prop :=
  (∃ now, l = .ran g key (some v) now) ∨ ∃ i now, l = .led i g key (some v) now

/-- An observation of the key returned the value. -/
def Origin (ls : List (Label γ κ ρ ι)) (g : γ) (key : κ) (v : ρ) : Prop :=
  ∃ l ∈ ls, l.Observes g key v

/-- What may be different after a step: entries keep their cache and their key, and a value or an
outcome is new only if it was observed. -/
structure Follows (observes : γ → κ → ρ → Prop) (s s' : State γ κ ρ ι) : Prop where
  entries : ∀ (e : ℕ) (y : Entry γ κ ρ), s.heap[e]? = some y →
    ∃ x : Entry γ κ ρ, s'.heap[e]? = some x ∧ x.cache = y.cache ∧ x.key = y.key
  values : ∀ (e : ℕ) (x : Entry γ κ ρ) v, s'.heap[e]? = some x → x.value = some v →
    (∃ y : Entry γ κ ρ, s.heap[e]? = some y ∧ y.cache = x.cache ∧ y.key = x.key ∧
      y.value = some v) ∨ observes x.cache x.key v
  outcomes : ∀ (f : ℕ) (p : Promise ρ) v, s'.promises[f]? = some p → p.outcome = some (some v) →
    (∃ q : Promise ρ, s.promises[f]? = some q ∧ q.entry = p.entry ∧ q.outcome = some (some v)) ∨
      ∃ x : Entry γ κ ρ, s'.heap[p.entry]? = some x ∧ observes x.cache x.key v

variable {observes : γ → κ → ρ → Prop} {s s₁ s' : State γ κ ρ ι} {now : ℚ} {e : ℕ}
  {x : Entry γ κ ρ}

theorem follows_of_eq (hheap : s'.heap = s.heap) (hpromises : s'.promises = s.promises) :
    Follows observes s s' where
  entries _ y hy := ⟨y, hheap ▸ hy, rfl, rfl⟩
  values _ x _ hx hv := .inl ⟨x, hheap ▸ hx, rfl, rfl, hv⟩
  outcomes _ p _ hp hv := .inl ⟨p, hpromises ▸ hp, rfl, hv⟩

theorem Follows.trans (h : Follows observes s s₁) (h' : Follows observes s₁ s') :
    Follows observes s s' where
  entries e y hy := by
    obtain ⟨z, hz, hcache, hkey⟩ := h.entries e y hy
    obtain ⟨x, hx, hcache', hkey'⟩ := h'.entries e z hz
    exact ⟨x, hx, hcache'.trans hcache, hkey'.trans hkey⟩
  values e x v hx hv := by
    obtain ⟨z, hz, hcache, hkey, hvalue⟩ | hnew := h'.values e x v hx hv
    · rw [← hcache, ← hkey]
      exact h.values e z v hz hvalue
    · exact .inr hnew
  outcomes f p v hp hv := by
    obtain ⟨q, hq, hentry, houtcome⟩ | hnew := h'.outcomes f p v hp hv
    · obtain ⟨q', hq', hentry', houtcome'⟩ | ⟨z, hz, hnew⟩ := h.outcomes f q v hq houtcome
      · exact .inl ⟨q', hq', hentry'.trans hentry, houtcome'⟩
      · obtain ⟨x, hx, hcache, hkey⟩ := h'.entries _ z hz
        rw [← hcache, ← hkey] at hnew
        exact .inr ⟨x, hentry ▸ hx, hnew⟩
    · exact .inr hnew

theorem follows_begin (hx : s.heap[e]? = some x) : Follows observes s (s.begin e x) where
  entries e' y hy := by
    by_cases heq : e' = e
    · subst heq
      cases hx.symm.trans hy
      exact ⟨_, getElem?_set_same hx, rfl, rfl⟩
    · exact ⟨y, (getElem?_set_other heq).trans hy, rfl, rfl⟩
  values e' y v hy hv := by
    obtain ⟨rfl, rfl⟩ | ⟨-, hy⟩ := getElem?_of_set hy
    · exact .inl ⟨x, hx, rfl, rfl, hv⟩
    · exact .inl ⟨y, hy, rfl, rfl, hv⟩
  outcomes f p v hp hv := by
    obtain ⟨-, rfl⟩ | ⟨-, hp⟩ := getElem?_of_append hp
    · cases hv
    · exact .inl ⟨p, hp, rfl, hv⟩

theorem follows_observed {t : Task} {outcome : Option ρ} (hx : s.heap[t.entry]? = some x)
    (howner : ∀ p, s.promises[t.future]? = some p → p.entry = t.entry)
    (hobserves : ∀ v, outcome = some v → observes x.cache x.key v) :
    Follows observes s (s.observed t x outcome now) where
  entries e y hy := by
    obtain ⟨hcache, hkey, -⟩ := x.observed_fields outcome now
    by_cases heq : e = t.entry
    · subst heq
      obtain rfl := Option.some.inj (hx.symm.trans hy)
      exact ⟨_, getElem?_set_same hx, hcache, hkey⟩
    · exact ⟨y, (getElem?_set_other heq).trans hy, rfl, rfl⟩
  values e y v hy hv := by
    obtain ⟨rfl, rfl⟩ | ⟨-, hy⟩ := getElem?_of_set hy
    · cases outcome with
      | none => exact .inl ⟨x, hx, rfl, rfl, hv⟩
      | some w =>
        obtain rfl := Option.some.inj hv
        exact .inr (hobserves w rfl)
    · exact .inl ⟨y, hy, rfl, rfl, hv⟩
  outcomes f p v hp hv := by
    obtain ⟨hcache, hkey, -⟩ := x.observed_fields outcome now
    rw [State.observed, List.getElem?_modify] at hp
    obtain ⟨q, hq, hmodified⟩ := Option.map_eq_some_iff.mp hp
    split at hmodified
    · rename_i heq
      subst heq hmodified
      obtain rfl : outcome = some v := Option.some.inj hv
      refine .inr ⟨x.observed (some v) now, ?_, ?_⟩
      · show (s.heap.set t.entry _)[q.entry]? = _
        rw [howner q hq]
        exact getElem?_set_same hx
      · rw [hcache, hkey]
        exact hobserves v rfl
    · subst hmodified
      exact .inl ⟨q, hq, rfl, hv⟩

theorem follows_startBehind (hx : s.heap[e]? = some x) :
    Follows observes s ((s.startBehind e x now).tick now) := by
  rw [State.startBehind]
  split
  · exact follows_of_eq rfl rfl
  · exact (follows_begin hx).trans (follows_of_eq rfl rfl)

variable {ls : List (Label γ κ ρ ι)} {l : Label γ κ ρ ι} {g : γ} {key : κ}

theorem Origin.snoc {v : ρ} (h : Origin ls g key v) : Origin (ls ++ [l]) g key v := by
  obtain ⟨l', hl', hobserves⟩ := h
  exact ⟨l', List.mem_append_left _ hl', hobserves⟩

variable [DecidableEq γ] [DecidableEq κ] {capacity : γ → ℕ}

theorem follows_entry (h : s.entry capacity g key = some (s₁, e)) : Follows observes s s₁ := by
  have hmake : ∀ t : Table κ ℕ, Follows observes s (s.make g key t) := fun t => {
    entries := fun e y hy => ⟨y, getElem?_append_of_some hy, rfl, rfl⟩
    values := fun e x v hx hv => by
      obtain ⟨-, rfl⟩ | ⟨-, hx⟩ := getElem?_of_append hx
      · cases hv
      · exact .inl ⟨x, hx, rfl, rfl, hv⟩
    outcomes := fun f p v hp hv => .inl ⟨p, hp, rfl, hv⟩ }
  rw [State.entry] at h
  split at h
  · obtain ⟨rfl, -⟩ := Prod.mk.inj (Option.some.inj h)
    exact follows_of_eq rfl rfl
  · split at h
    · obtain ⟨k, -, hs⟩ := Option.map_eq_some_iff.mp h
      obtain ⟨rfl, -⟩ := Prod.mk.inj hs
      exact hmake _
    · obtain ⟨rfl, -⟩ := Prod.mk.inj (Option.some.inj h)
      exact hmake _

variable [DecidableEq ι]

theorem follows_step (h : Sound capacity s) (hstep : Step capacity s l s') :
    Follows l.Observes s s' := by
  have howner : ∀ {t : Task}, Works s.heap t → ∀ p, s.promises[t.future]? = some p →
      p.entry = t.entry := by
    rintro t ⟨y, hy, -, hresult⟩ p hp
    obtain ⟨q, hq, hentry, -⟩ := h.store.result _ _ _ hy hresult
    cases hp.symm.trans hq
    exact hentry
  cases hstep with
  | hit _ _ he hx _ => exact (follows_entry he).trans (follows_startBehind hx)
  | @lead s₁ i g key now e x _ _ he hx _ _ =>
    exact (follows_entry he).trans ((follows_begin hx).trans (follows_of_eq rfl rfl))
  | join _ _ he _ _ _ _ => exact (follows_entry he).trans (follows_of_eq rfl rfl)
  | assertion _ _ he _ _ _ _ => exact (follows_entry he).trans (follows_of_eq rfl rfl)
  | prewarm _ he hx => exact (follows_entry he).trans (follows_startBehind hx)
  | refresh _ _ hx => exact follows_startBehind hx
  | @ran t x outcome now hrunning hx _ =>
    have ht := (h.work.work t).mp (.inl (List.mem_append_left _ hrunning))
    refine (follows_observed hx (howner ht) fun v hv => ?_).trans
      (follows_of_eq rfl rfl)
    exact .inl ⟨now, by rw [hv]⟩
  | @led i g key t x outcome now hi hx _ =>
    have ht := (h.work.work t).mp (.inr ⟨i, g, key, hi⟩)
    refine (follows_observed hx (howner ht) fun v hv => ?_).trans
      (follows_of_eq rfl rfl)
    exact .inr ⟨i, now, by rw [hv]⟩
  | _ => exact follows_of_eq rfl rfl

/-- The steps so far record the values and the outcomes. -/
structure Recorded (ls : List (Label γ κ ρ ι)) (s : State γ κ ρ ι) : Prop where
  values : ∀ (e : ℕ) (x : Entry γ κ ρ) v, s.heap[e]? = some x → x.value = some v →
    Origin ls x.cache x.key v
  outcomes : ∀ (f : ℕ) (p : Promise ρ) (x : Entry γ κ ρ) v, s.promises[f]? = some p →
    s.heap[p.entry]? = some x → p.outcome = some (some v) → Origin ls x.cache x.key v

theorem recorded_step (h : Recorded ls s) (hsound : Sound capacity s)
    (hstep : Step capacity s l s') : Recorded (ls ++ [l]) s' := by
  have hfollows := follows_step hsound hstep
  have hlast : ∀ {g key v}, l.Observes g key v → Origin (ls ++ [l]) g key v := fun hl =>
    ⟨l, List.mem_append_right _ (List.mem_singleton.mpr rfl), hl⟩
  constructor
  · intro e x v hx hv
    obtain ⟨y, hy, hcache, hkey, hvalue⟩ | hnew := hfollows.values e x v hx hv
    · rw [← hcache, ← hkey]
      exact (h.values e y v hy hvalue).snoc
    · exact hlast hnew
  · intro f p x v hp hx hv
    obtain ⟨q, hq, hentry, houtcome⟩ | ⟨y, hy, hnew⟩ := hfollows.outcomes f p v hp hv
    · obtain ⟨y, hy, -⟩ := hsound.store.owned f q hq
      obtain ⟨z, hz, hcache, hkey⟩ := hfollows.entries _ y hy
      obtain rfl : x = z := Option.some.inj (hx.symm.trans (hentry ▸ hz))
      rw [hcache, hkey]
      exact (h.outcomes f q y v hq hy houtcome).snoc
    · cases hx.symm.trans hy
      exact hlast hnew

end Origins

/-! ## The latest value -/

section Latest

/-- `v` is what the last observation of the key that returned a value returned. -/
def Latest (ls : List (Label γ κ ρ ι)) (g : γ) (key : κ) (v : ρ) : Prop :=
  ∃ before l after, ls = before ++ l :: after ∧ l.Observes g key v ∧
    ∀ l' ∈ after, ∀ w, ¬l'.Observes g key w

variable {ls : List (Label γ κ ρ ι)} {l : Label γ κ ρ ι} {s s₁ s' : State γ κ ρ ι} {g : γ} {key : κ}
  {e : ℕ} {x : Entry γ κ ρ} {now : ℚ}

theorem Latest.last {v : ρ} (h : l.Observes g key v) : Latest (ls ++ [l]) g key v :=
  ⟨ls, l, [], rfl, h, fun _ hl => absurd hl List.not_mem_nil⟩

theorem Latest.snoc {v : ρ} (h : Latest ls g key v) (hl : ∀ w, ¬l.Observes g key w) :
    Latest (ls ++ [l]) g key v := by
  obtain ⟨before, l₀, after, rfl, hobserves, hnone⟩ := h
  refine ⟨before, l₀, after ++ [l], by simp, hobserves, fun l' hl' => ?_⟩
  obtain hl' | hl' := List.mem_append.mp hl'
  · exact hnone l' hl'
  · obtain rfl := List.mem_singleton.mp hl'
    exact hl

variable [DecidableEq κ]

/-- An entry of a cache has the value that it had. -/
def Keeps (s s' : State γ κ ρ ι) : Prop :=
  ∀ g key e (x : Entry γ κ ρ) v, (s'.entries g).lookup key = some e → s'.heap[e]? = some x →
    x.value = some v → ∃ y : Entry γ κ ρ, (s.entries g).lookup key = some e ∧
      s.heap[e]? = some y ∧ y.value = some v

theorem keeps_of_eq (hheap : s'.heap = s.heap) (hentries : s'.entries = s.entries) :
    Keeps s s' := by
  intro g key e x v hlisted hx hv
  exact ⟨x, hentries ▸ hlisted, hheap ▸ hx, hv⟩

theorem Keeps.trans (h : Keeps s s₁) (h' : Keeps s₁ s') : Keeps s s' := by
  intro g key e x v hlisted hx hv
  obtain ⟨y, hlisted, hy, hv⟩ := h' g key e x v hlisted hx hv
  exact h g key e y v hlisted hy hv

theorem keeps_begin (hx : s.heap[e]? = some x) : Keeps s (s.begin e x) := by
  intro g key e' y v hlisted hy hv
  obtain ⟨rfl, rfl⟩ | ⟨-, hy⟩ := getElem?_of_set hy
  · exact ⟨x, hlisted, hx, hv⟩
  · exact ⟨y, hlisted, hy, hv⟩

theorem keeps_startBehind (hx : s.heap[e]? = some x) :
    Keeps s ((s.startBehind e x now).tick now) := by
  rw [State.startBehind]
  split
  · exact keeps_of_eq rfl rfl
  · exact (keeps_begin hx).trans (keeps_of_eq rfl rfl)

variable {capacity : γ → ℕ}

/-- Every entry of a cache that has a value has the latest one. -/
def Current (ls : List (Label γ κ ρ ι)) (s : State γ κ ρ ι) : Prop :=
  ∀ g key e (x : Entry γ κ ρ) v, (s.entries g).lookup key = some e → s.heap[e]? = some x →
    x.value = some v → Latest ls g key v

theorem Current.keeps (h : Current ls s) (hkeeps : Keeps s s')
    (hl : ∀ g key v, ¬l.Observes g key v) : Current (ls ++ [l]) s' := by
  intro g key e x v hlisted hx hv
  obtain ⟨y, hlisted, hy, hv⟩ := hkeeps g key e x v hlisted hx hv
  exact (h g key e y v hlisted hy hv).snoc (hl g key)

/-- After an observation the entry of its key has its value, and the others are as before. -/
theorem Current.observed (h : Current ls s) (hsound : Sound capacity s) {t : Task}
    {outcome : Option ρ} (ht : Works s.heap t) (hx : s.heap[t.entry]? = some x)
    (hl : ∀ g key v, l.Observes g key v ↔ g = x.cache ∧ key = x.key ∧ outcome = some v) :
    Current (ls ++ [l]) (s.observed t x outcome now) := by
  obtain ⟨x', hx', hpending, -⟩ := ht
  cases hx.symm.trans hx'
  have hretained := hsound.store.retained _ _ hx hpending
  intro g key e y v hlisted hy hv
  have hlisted : (s.entries g).lookup key = some e := hlisted
  obtain ⟨rfl, rfl⟩ | ⟨hne, hy⟩ := getElem?_of_set hy
  · obtain ⟨z, hz, rfl, rfl⟩ := hsound.store.listed g key _ hlisted
    cases hx.symm.trans hz
    cases outcome with
    | none =>
      refine (h _ _ _ _ v hlisted hx hv).snoc fun w hw => ?_
      exact absurd ((hl _ _ w).mp hw).2.2 nofun
    | some w =>
      obtain rfl : w = v := Option.some.inj hv
      exact .last ((hl _ _ w).mpr ⟨rfl, rfl, rfl⟩)
  · refine (h g key e y v hlisted hy hv).snoc fun w hw => hne ?_
    obtain ⟨rfl, rfl, -⟩ := (hl g key w).mp hw
    exact Option.some.inj (hlisted.symm.trans hretained)

variable [DecidableEq γ]

theorem Sound.keeps_entry (h : Sound capacity s) (he : s.entry capacity g key = some (s₁, e)) :
    Keeps s s₁ := by
  intro g' key' e' y v hlisted hy hv
  obtain ⟨hlookup, rfl⟩ | ⟨-, rfl, t, rfl, -, hsub, -⟩ := entry_cases (h.store.bounded g) he
  · refine ⟨y, ?_, hy, hv⟩
    by_cases hg : g' = g
    · subst hg
      have hlisted : (Function.update s.entries g' _ g').lookup key' = some e' := hlisted
      rw [Function.update_self, Table.lookup_insert_ite] at hlisted
      split at hlisted
      · rename_i hkey
        rw [hkey, hlookup]
        exact hlisted
      · exact hlisted
    · have hlisted : (Function.update s.entries g _ g').lookup key' = some e' := hlisted
      rwa [Function.update_of_ne hg] at hlisted
  · obtain ⟨-, rfl⟩ | ⟨hlength, hy⟩ := getElem?_of_append hy
    · cases hv
    · refine ⟨y, ?_, hy, hv⟩
      have hlt : e' < s.heap.length := (List.getElem?_eq_some_iff.mp hy).1
      by_cases hg : g' = g
      · subst hg
        have hlisted : (Function.update s.entries g' _ g').lookup key' = some e' := hlisted
        rw [Function.update_self, Table.lookup_insert_ite] at hlisted
        split at hlisted
        · cases hlisted
          exact absurd hlt (Nat.lt_irrefl _)
        · exact hsub _ _ hlisted
      · have hlisted : (Function.update s.entries g _ g').lookup key' = some e' := hlisted
        rwa [Function.update_of_ne hg] at hlisted

variable [DecidableEq ι]

theorem current_step (h : Current ls s) (hsound : Sound capacity s)
    (hstep : Step capacity s l s') : Current (ls ++ [l]) s' := by
  have hnever : ∀ {l : Label γ κ ρ ι}, (∀ g key v now, l ≠ .ran g key (some v) now) →
      (∀ i g key v now, l ≠ .led i g key (some v) now) → ∀ g key v, ¬l.Observes g key v := by
    rintro l hran hled g key v (⟨now, hl⟩ | ⟨i, now, hl⟩)
    · exact hran g key v now hl
    · exact hled i g key v now hl
  cases hstep with
  | exhausted => exact h.keeps (keeps_of_eq rfl rfl) (hnever nofun nofun)
  | hit _ _ he hx _ =>
    exact h.keeps ((hsound.keeps_entry he).trans (keeps_startBehind hx)) (hnever nofun nofun)
  | lead _ _ he hx _ _ =>
    exact h.keeps ((hsound.keeps_entry he).trans ((keeps_begin hx).trans (keeps_of_eq rfl rfl)))
      (hnever nofun nofun)
  | join _ _ he _ _ _ _ =>
    exact h.keeps ((hsound.keeps_entry he).trans (keeps_of_eq rfl rfl)) (hnever nofun nofun)
  | assertion _ _ he _ _ _ _ =>
    exact h.keeps ((hsound.keeps_entry he).trans (keeps_of_eq rfl rfl)) (hnever nofun nofun)
  | prewarm _ he hx =>
    exact h.keeps ((hsound.keeps_entry he).trans (keeps_startBehind hx)) (hnever nofun nofun)
  | refresh _ _ hx => exact h.keeps (keeps_startBehind hx) (hnever nofun nofun)
  | take => exact h.keeps (keeps_of_eq rfl rfl) (hnever nofun nofun)
  | @ran t x outcome now hrunning hx _ =>
    have ht := (hsound.work.work t).mp (.inl (List.mem_append_left _ hrunning))
    refine Current.observed h hsound ht hx fun g key v => ?_
    constructor
    · rintro (⟨_, hl⟩ | ⟨_, _, hl⟩)
      · obtain ⟨rfl, rfl, rfl, -⟩ := Label.ran.inj hl
        exact ⟨rfl, rfl, rfl⟩
      · cases hl
    · rintro ⟨rfl, rfl, rfl⟩
      exact .inl ⟨now, rfl⟩
  | release => exact h.keeps (keeps_of_eq rfl rfl) (hnever nofun nofun)
  | @led i g key t x outcome now hi hx _ =>
    have ht := (hsound.work.work t).mp (.inr ⟨i, g, key, hi⟩)
    refine Current.observed h hsound ht hx fun g key v => ?_
    constructor
    · rintro (⟨_, hl⟩ | ⟨_, _, hl⟩)
      · cases hl
      · obtain ⟨-, rfl, rfl, rfl, -⟩ := Label.led.inj hl
        exact ⟨rfl, rfl, rfl⟩
    · rintro ⟨rfl, rfl, rfl⟩
      exact .inr ⟨i, now, rfl⟩
  | finish => exact h.keeps (keeps_of_eq rfl rfl) (hnever nofun nofun)
  | expire => exact h.keeps (keeps_of_eq rfl rfl) (hnever nofun nofun)
  | close => exact h.keeps (keeps_of_eq rfl rfl) (hnever nofun nofun)
  | cancel => exact h.keeps (keeps_of_eq rfl rfl) (hnever nofun nofun)

end Latest

/-! ## The main result -/

section Observing

/-- A worker, the queue or a thread has the task. -/
def State.Observing (s : State γ κ ρ ι) (t : Task) : Prop :=
  t ∈ s.queue ∨ t ∈ s.running ∨ ∃ i, s.leads i t

variable [DecidableEq κ] {capacity : γ → ℕ}

theorem Sound.works {s : State γ κ ρ ι} (h : Sound capacity s) {t : Task} (ht : s.Observing t) :
    Works s.heap t := by
  rw [← h.work.work]
  obtain hq | hr | hl := ht
  · exact .inl (List.mem_append_right _ (List.mem_append_right _ hq))
  · exact .inl (List.mem_append_left _ hr)
  · exact .inr hl

theorem Sound.single {s : State γ κ ρ ι} (h : Sound capacity s) {t t' : Task} {x x' : Entry γ κ ρ}
    (ht : s.Observing t) (ht' : s.Observing t') (hx : s.heap[t.entry]? = some x)
    (hx' : s.heap[t'.entry]? = some x') (hcache : x.cache = x'.cache) (hkey : x.key = x'.key) :
    t = t' := by
  obtain ⟨y, hy, hpending, hresult⟩ := h.works ht
  cases hx.symm.trans hy
  obtain ⟨y', hy', hpending', hresult'⟩ := h.works ht'
  cases hx'.symm.trans hy'
  have hlisted := h.store.retained _ _ hx hpending
  have hlisted' := h.store.retained _ _ hx' hpending'
  rw [hcache, hkey, hlisted'] at hlisted
  obtain ⟨e, f⟩ := t
  obtain ⟨e', f'⟩ := t'
  obtain rfl : e' = e := Option.some.inj hlisted
  cases hx.symm.trans hx'
  obtain rfl : f = f' := Option.some.inj (hresult.symm.trans hresult')
  rfl

theorem Sound.awaited {s : State γ κ ρ ι} (h : Sound capacity s) {i : ι} {c : Call γ κ} {f : ℕ}
    {since : ℚ} (hi : s.thread i = some c) (hc : c.stage = .awaiting f since) :
    ∃ p : Promise ρ, s.promises[f]? = some p ∧
      (p.outcome.isSome = true ∨ s.Observing ⟨p.entry, f⟩ ∨ s.closed = true) := by
  obtain ⟨p, -, hp, -⟩ := (h.calls i c hi).awaiting f since hc
  refine ⟨p, hp, ?_⟩
  cases hdone : p.outcome with
  | some outcome => exact .inl rfl
  | none =>
    right
    obtain ⟨x, hx, hundone⟩ := h.store.owned f p hp
    obtain ⟨hpending, hresult⟩ := hundone hdone
    obtain hm | hl := (h.work.work ⟨p.entry, f⟩).mpr ⟨x, hx, hpending, hresult⟩
    · obtain hr | hm := List.mem_append.mp hm
      · exact .inl (.inr (.inl hr))
      · obtain hcancelled | hq := List.mem_append.mp hm
        · refine .inr (h.stopped.resolve_left fun hnil => ?_)
          rw [hnil] at hcancelled
          cases hcancelled
        · exact .inl (.inl hq)
    · exact .inl (.inr (.inr hl))

theorem Sound.spaced {s : State γ κ ρ ι} (h : Sound capacity s) {e : ℕ} {x : Entry γ κ ρ}
    {t now : ℚ} (hx : s.heap[e]? = some x) (ht : x.ended = some t)
    (hdue : max x.refreshAt x.retryAt ≤ now) : t + x.pause ≤ now :=
  (h.store.ended e x t hx ht).2.trans hdue

end Observing

/-! ## One entry -/

section Aging

variable {s s₁ s' : State γ κ ρ ι} {e : ℕ} {x : Entry γ κ ρ} {now : ℚ}

/-- An entry does not lose its value, and is not started before it is due. -/
def Ages (s s' : State γ κ ρ ι) : Prop :=
  ∀ (e : ℕ) (x : Entry γ κ ρ), s.heap[e]? = some x → ∃ x' : Entry γ κ ρ, s'.heap[e]? = some x' ∧
    (x.value.isSome = true → x'.value.isSome = true) ∧
    (x.pending = false → x'.pending = true → max x.refreshAt x.retryAt ≤ s'.clock)

theorem ages_of_heap (h : s'.heap = s.heap) : Ages s s' := by
  intro e x hx
  refine ⟨x, h ▸ hx, id, fun hidle hpending => ?_⟩
  rw [hidle] at hpending
  cases hpending

/-- The entries are those of a state with more of them. -/
theorem Ages.of_larger (h : Ages s₁ s')
    (hle : ∀ (e : ℕ) (x : Entry γ κ ρ), s.heap[e]? = some x → s₁.heap[e]? = some x) :
    Ages s s' :=
  fun e x hx => h e x (hle e x hx)

theorem ages_set {y : Entry γ κ ρ} (hx : s.heap[e]? = some x) (hheap : s'.heap = s.heap.set e y)
    (hvalue : x.value.isSome = true → y.value.isSome = true)
    (hdue : x.pending = false → y.pending = true → max x.refreshAt x.retryAt ≤ s'.clock) :
    Ages s s' := by
  intro e' x' hx'
  rw [hheap]
  by_cases he : e' = e
  · subst he
    cases hx.symm.trans hx'
    exact ⟨y, getElem?_set_same hx, hvalue, hdue⟩
  · refine ⟨x', (getElem?_set_other he).trans hx', id, fun hidle hpending => ?_⟩
    rw [hidle] at hpending
    cases hpending

theorem Entry.due_le (h : x.rests now = false) : max x.refreshAt x.retryAt ≤ now := by
  rw [Entry.rests, Bool.or_eq_false_iff, decide_eq_false_iff_not, not_lt] at h
  exact h.2

theorem ages_startBehind (hx : s.heap[e]? = some x) :
    Ages s ((s.startBehind e x now).tick now) := by
  rw [State.startBehind]
  split
  · exact ages_of_heap rfl
  · rename_i hstarts
    have hdue : x.rests now = false := by
      rw [← Bool.not_eq_true]
      exact fun hrests => hstarts (.inl hrests)
    exact ages_set hx rfl id fun _ _ => Entry.due_le hdue

theorem ages_observed {t : Task} {outcome : Option ρ} (hx : s.heap[t.entry]? = some x) :
    Ages s (s.observed t x outcome now) := by
  refine ages_set hx rfl (fun hvalue => ?_) fun _ hpending => ?_
  · cases outcome with
    | none => exact hvalue
    | some v => rfl
  · rw [Entry.observed_pending] at hpending
    cases hpending

variable [DecidableEq γ] [DecidableEq κ] {capacity : γ → ℕ} {g : γ} {key : κ}

theorem entry_larger (h : s.entry capacity g key = some (s₁, e)) (e' : ℕ) (x : Entry γ κ ρ)
    (hx : s.heap[e']? = some x) : s₁.heap[e']? = some x := by
  rw [State.entry] at h
  split at h
  · cases h
    exact hx
  · split at h
    · obtain ⟨k, -, h⟩ := Option.map_eq_some_iff.mp h
      obtain ⟨rfl, rfl⟩ := Prod.mk.inj h
      exact getElem?_append_of_some hx
    · cases h
      exact getElem?_append_of_some hx

/-- An entry that is in its cache is found. -/
theorem entry_of_listed (h : (s.entries g).lookup key = some e) :
    s.entry capacity g key =
      some ({ s with entries := Function.update s.entries g ((s.entries g).insert key e) }, e) := by
  rw [State.entry, h]

variable [DecidableEq ι] {l : Label γ κ ρ ι}

theorem ages_step (hstep : Step capacity s l s') : Ages s s' := by
  cases hstep with
  | hit _ _ he hx _ => exact (ages_startBehind hx).of_larger (entry_larger he)
  | @lead s₁ i g key now e x _ _ he hx _ hdue =>
    have hset : Ages s₁ (((s₁.begin e x).goto i
        (some ⟨g, key, .leading ⟨e, s₁.promises.length⟩⟩)).tick now) :=
      ages_set hx rfl id fun _ _ => Entry.due_le hdue
    exact hset.of_larger (entry_larger he)
  | @join s₁ i g key now e f x _ _ he _ _ _ _ =>
    have hsame : Ages s₁ ((s₁.goto i (some ⟨g, key, .awaiting f now⟩)).tick now) :=
      ages_of_heap rfl
    exact hsame.of_larger (entry_larger he)
  | @assertion s₁ i g key now e x _ _ he _ _ _ _ =>
    have hsame : Ages s₁ (s₁.tick now) := ages_of_heap rfl
    exact hsame.of_larger (entry_larger he)
  | prewarm _ he hx => exact (ages_startBehind hx).of_larger (entry_larger he)
  | refresh _ _ hx => exact ages_startBehind hx
  | ran _ hx _ => exact ages_observed hx
  | led _ hx _ => exact ages_observed hx
  | _ => exact ages_of_heap rfl

end Aging

section Main

variable [DecidableEq γ] [DecidableEq κ] [DecidableEq ι] {capacity : γ → ℕ}

/-- The bounds of the caches and of the pool, and what `get` returns, after the steps `ls`. -/
structure Caches (capacity : γ → ℕ) (ls : List (Label γ κ ρ ι)) (s : State γ κ ρ ι) : Prop where
  bounded : ∀ g, (s.entries g).keys.length ≤ capacity g
  /-- an entry that is observed stays in its cache -/
  retained : ∀ t (x : Entry γ κ ρ), s.Observing t → s.heap[t.entry]? = some x →
    (s.entries x.cache).lookup x.key = some t.entry
  /-- at most one observation of a key of a cache is on its way -/
  single : ∀ t t' (x x' : Entry γ κ ρ), s.Observing t → s.Observing t' → s.heap[t.entry]? = some x →
    s.heap[t'.entry]? = some x' → x.cache = x'.cache → x.key = x'.key → t = t'
  /-- every slot is free, or held by one task -/
  slots : s.slots + s.queue.length + s.running.length + s.releasing = 32
  assertion : ∀ i g key now s', ¬Step capacity s (.get i g key now (some .assertion)) s'
  /-- an entry keeps a value once it has one, and an observation of it is not started before its
  times -/
  ages : ∀ l s', Step capacity s l s' → Ages s s'
  /-- an observation that gave a value leaves it in the entry of its key, which is not pending any
  more -/
  settled : ∀ l s' g key v, Step capacity s l s' → l.Observes g key v →
    ∃ e, ∃ x : Entry γ κ ρ, (s'.entries g).lookup key = some e ∧ s'.heap[e]? = some x ∧
      x.value = some v ∧ x.pending = false
  /-- an entry with a value has the latest one, and `get` returns it -/
  answered : ∀ g key e (x : Entry γ κ ρ) v, (s.entries g).lookup key = some e →
    s.heap[e]? = some x → x.value = some v → Latest ls g key v ∧
      ∀ i now answer s', Step capacity s (.get i g key now answer) s' → answer = some (.value v)

/-- What the callers of the caches can rely on, after the steps `ls`. -/
structure Serves (capacity : γ → ℕ) (ls : List (Label γ κ ρ ι)) (s : State γ κ ρ ι) : Prop where
  /-- no task is there twice, and no two threads lead the same task -/
  once : WorkSound s.heap s.tasks s.leads
  workers : s.running.length + s.releasing ≤ 2
  /-- a call waits for a future that is done or on its way, until the cache is closed -/
  awaited : ∀ i c f since, s.thread i = some c → c.stage = .awaiting f since →
    ∃ p : Promise ρ, s.promises[f]? = some p ∧
      (p.outcome.isSome = true ∨ s.Observing ⟨p.entry, f⟩ ∨ s.closed = true)
  /-- a step that starts an observation of an entry comes after the entry rested for its pause,
  counted from the end of the observation before -/
  spaced : ∀ l s' (e : ℕ) (x x' : Entry γ κ ρ) t, Step capacity s l s' → s.heap[e]? = some x →
    s'.heap[e]? = some x' → x.pending = false → x'.pending = true → x.ended = some t →
    t + x.pause ≤ s'.clock
  /-- what a call that waits returns was observed for its key -/
  returned : ∀ i g key v s', Step capacity s (.finish i g key (.value v)) s' → Origin ls g key v

theorem sound_recorded {clock : ℚ} (hclock : 0 ≤ clock) {ls : List (Label γ κ ρ ι)}
    {s : State γ κ ρ ι} (h : Run (Step capacity) (State.initial clock) ls s) :
    Sound capacity s ∧ Recorded ls s ∧ Current ls s := by
  refine Run.invariant_trace (I := fun ls s => Sound capacity s ∧ Recorded ls s ∧ Current ls s)
    h ?_ ?_
  · refine ⟨sound_initial capacity hclock, ⟨?_, ?_⟩, ?_⟩
    · intro e x v h
      cases h
    · intro f p x v h
      cases h
    · intro g key e x v _ h
      cases h
  · rintro ls s l s' ⟨hsound, hrecorded, hcurrent⟩ hstep
    exact ⟨sound_step hsound hstep, recorded_step hrecorded hsound hstep,
      current_step hcurrent hsound hstep⟩

/-- The end of an observation that gave a value stores it. -/
theorem Sound.settled {s s' : State γ κ ρ ι} (h : Sound capacity s) {l : Label γ κ ρ ι} {g : γ}
    {key : κ} {v : ρ} (hstep : Step capacity s l s') (hl : l.Observes g key v) :
    ∃ e, ∃ x : Entry γ κ ρ, (s'.entries g).lookup key = some e ∧ s'.heap[e]? = some x ∧
      x.value = some v ∧ x.pending = false := by
  have hstored : ∀ {t : Task} {x : Entry γ κ ρ} {now : ℚ}, Works s.heap t →
      s.heap[t.entry]? = some x → ∃ e, ∃ y : Entry γ κ ρ,
        (s.entries x.cache).lookup x.key = some e ∧
          (s.observed t x (some v) now).heap[e]? = some y ∧ y.value = some v ∧
            y.pending = false := by
    intro t x now ht hx
    obtain ⟨y, hy, hpending, -⟩ := ht
    cases hx.symm.trans hy
    exact ⟨t.entry, _, h.store.retained _ _ hx hpending, getElem?_set_same hx, rfl, rfl⟩
  obtain ⟨now, rfl⟩ | ⟨i, now, rfl⟩ := hl
  · generalize hran : Label.ran g key (some v) now = l at hstep
    cases hstep with
    | @ran t x outcome now hrunning hx _ =>
      obtain ⟨rfl, rfl, rfl, rfl⟩ := Label.ran.inj hran
      exact hstored ((h.work.work t).mp (.inl (List.mem_append_left _ hrunning))) hx
    | _ => cases hran
  · generalize hled : Label.led i g key (some v) now = l at hstep
    cases hstep with
    | @led i g key t x outcome now hi hx _ =>
      obtain ⟨rfl, rfl, rfl, rfl, rfl⟩ := Label.led.inj hled
      exact hstored ((h.work.work t).mp (.inr ⟨i, g, key, hi⟩)) hx
    | _ => cases hled

/-- **A cache has the latest values** in every run: the caches and the pool are bounded, a key is
observed once at a time and not before its times, and what `get` returns is the latest value.

The clock is `time.monotonic`, which is never negative; a cold entry has the times 0, so this is why
`get` never reaches its assertion.  That the value is the latest one needs the invariant that an
entry with an observation under way stays in its cache: an evicted entry would take the value of its
observation with it. -/
theorem latest_observations {clock : ℚ} (hclock : 0 ≤ clock) {ls : List (Label γ κ ρ ι)}
    {s : State γ κ ρ ι} (h : Run (Step capacity) (State.initial clock) ls s) :
    Caches capacity ls s := by
  obtain ⟨hsound, -, hcurrent⟩ := sound_recorded hclock h
  refine ⟨hsound.store.bounded, ?_, fun _ _ _ _ => hsound.single, hsound.slots, ?_,
    fun _ _ => ages_step, fun _ _ _ _ _ => hsound.settled, ?_⟩
  · intro t x ht hx
    obtain ⟨y, hy, hpending, -⟩ := hsound.works ht
    cases hx.symm.trans hy
    exact hsound.store.retained _ _ hx hpending
  · intro i g key now s' hstep
    generalize hl : Label.get i g key now (some Answer.assertion) = l at hstep
    cases hstep with
    | @assertion s₁ i g key now e x free clock he hx hv hrests hresult =>
      obtain ⟨h₁, -, -, hsame⟩ := hsound.entry he
      obtain ⟨hidle, hzero⟩ := h₁.store.fresh e x hx hresult
      rw [Entry.rests, hidle, hzero, Bool.false_or, decide_eq_true_eq] at hrests
      exact absurd (hsound.clock.trans clock) (not_le.mpr hrests)
    | _ => cases hl
  · intro g key e x v hlisted hx hv
    refine ⟨hcurrent g key e x v hlisted hx hv, fun i now answer s' hstep => ?_⟩
    generalize hl : Label.get i g key now answer = l at hstep
    have hfound : ∀ {s₁ e₁}, s.entry capacity g key = some (s₁, e₁) → s₁.heap[e₁]? = some x := by
      intro s₁ e₁ he
      rw [entry_of_listed hlisted] at he
      cases he
      exact hx
    cases hstep with
    | exhausted _ _ hfull =>
      obtain ⟨-, rfl, rfl, -⟩ := Label.get.inj hl
      rw [entry_of_listed hlisted] at hfull
      cases hfull
    | hit _ _ he hy hw =>
      obtain ⟨-, rfl, rfl, -, rfl⟩ := Label.get.inj hl
      cases (hfound he).symm.trans hy
      rw [Option.some.inj (hw.symm.trans hv)]
    | lead _ _ he hy hw _ =>
      obtain ⟨-, rfl, rfl, -⟩ := Label.get.inj hl
      cases (hfound he).symm.trans hy
      rw [hv] at hw
      cases hw
    | join _ _ he hy hw _ _ =>
      obtain ⟨-, rfl, rfl, -⟩ := Label.get.inj hl
      cases (hfound he).symm.trans hy
      rw [hv] at hw
      cases hw
    | assertion _ _ he hy hw _ _ =>
      obtain ⟨-, rfl, rfl, -⟩ := Label.get.inj hl
      cases (hfound he).symm.trans hy
      rw [hv] at hw
      cases hw
    | _ => cases hl

/-- A thread leads and another one waits, the observation fails, and after its pause a third thread
observes a value. -/
def sampleRun : List (Label ℕ ℕ ℕ ℕ) :=
  [.get 0 0 7 0 none, .get 1 0 7 1 none, .led 0 0 7 none 2, .finish 1 0 7 .failed,
    .get 2 0 7 7 none, .led 2 0 7 (some 5) 9]

theorem run_sampleRun :
    ∃ s, Run (Step fun _ => 1) (State.initial 0 : State ℕ ℕ ℕ ℕ) sampleRun s ∧
      (∃ s', Step (fun _ => 1) s (.finish 2 0 7 (.value 5)) s') ∧ (s.entries 0).lookup 7 = some 0 ∧
      s.heap.map (fun x => (x.value, x.pending, x.ended)) = [(some 5, false, some 9)] := by
  have h₁ : Step (fun _ => 1) (State.initial 0 : State ℕ ℕ ℕ ℕ) (.get 0 0 7 0 none) _ :=
    .lead rfl le_rfl rfl rfl rfl (by decide)
  have h₂ : Run (Step fun _ => 1) (State.initial 0) (sampleRun.take 1) _ := .snoc .nil h₁
  have h₃ := h₂.snoc
    (@Step.join _ _ _ _ _ _ _ _ _ _ 1 0 7 1 _ _ _ rfl (by decide) rfl rfl rfl rfl rfl)
  have h₄ := h₃.snoc (@Step.led _ _ _ _ _ _ _ _ _ 0 _ _ _ _ none 2 rfl rfl (by decide))
  have h₅ := h₄.snoc (@Step.finish _ _ _ _ _ _ _ _ _ 1 _ _ _ _ _ _ rfl rfl rfl)
  have h₆ := h₅.snoc (@Step.lead _ _ _ _ _ _ _ _ _ _ 2 0 7 7 _ _ rfl (by decide) rfl rfl rfl
    (by decide +kernel))
  have h₇ := h₆.snoc (@Step.led _ _ _ _ _ _ _ _ _ 2 _ _ _ _ (some 5) 9 rfl rfl (by decide))
  exact ⟨_, h₇, ⟨_, @Step.finish _ _ _ _ _ _ _ _ _ 2 0 7 1 9 _ (some 5) rfl rfl rfl⟩, rfl, rfl⟩

theorem latest_observations_sample : ∃ s : State ℕ ℕ ℕ ℕ,
    Run (Step fun _ => 1) (State.initial 0) sampleRun s ∧ (s.entries 0).lookup 7 = some 0 ∧
      s.heap.map (fun x => (x.value, x.pending, x.ended)) = [(some 5, false, some 9)] ∧
      Caches (fun _ => 1) sampleRun s := by
  obtain ⟨s, hs, -, hlisted, hheap⟩ := run_sampleRun
  exact ⟨s, hs, hlisted, hheap, latest_observations le_rfl hs⟩

end Main

end FlavorCache
end Controller
end OpenstackPlatform
