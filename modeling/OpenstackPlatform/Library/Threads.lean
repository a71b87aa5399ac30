import OpenstackPlatform.Library.Process
import OpenstackPlatform.Library.Run
import Mathlib.Logic.Function.Basic

/-!
# Threads over one state

A `Machine` runs at most one `Process` for each name `ι` over a shared state.  Its steps start a
request under a free name, advance one process by one node, retire a finished one, and stop the
whole machine: the processes are gone, the state stays but for what only a running process holds.

A `Protocol` is the agreement between the threads.  Each has a *view*, the part of the state that
only it changes, together with what holds still while it owns a lock; all keep a common invariant,
leave every other view alone, and observe `change` at each of their own steps.  So a thread is
verified on its own, as a sequential program over its view (`Triple`), and `Sound.sound_of_run` puts
the threads together: along every run the invariant holds and every running process still ensures
what it promised; `Sound.keeps` says what one step of a sound machine can do.
-/

namespace OpenstackPlatform
namespace Library

universe u

/-- The agreement between threads: what each sees, what all keep, and what a thread that serves a
request `θ` may do in one step, a transaction or a question. -/
structure Protocol (ι θ σ τ κ : Type) (ν : Type u) where
  view : ι → σ → ν
  Inv : σ → Prop
  change : ι → θ → σ → τ ⊕ κ → σ → Prop

namespace Protocol

variable {ι θ σ τ κ ρ ε χ α β : Type} {ν : Type u} (P : Protocol ι θ σ τ κ ν)

/-- A step of the thread `i` that keeps the agreement. -/
structure Keeps (i : ι) (q : θ) (s : σ) (l : τ ⊕ κ) (s' : σ) : Prop where
  inv : P.Inv s'
  others : ∀ j, j ≠ i → P.view j s' = P.view j s
  change : P.change i q s l s'

/-- The contract of one thread: the others leave its view alone. -/
def contract (i : ι) (q : θ) : Contract σ τ κ where
  rely s s' := (P.Inv s → P.Inv s') ∧ P.view i s' = P.view i s
  write s t s' := P.Inv s → P.Keeps i q s (.inl t) s'
  ask s k s' := P.Inv s → P.Keeps i q s (.inr k) s'

theorem contract_closed (i : ι) (q : θ) : (P.contract i q).Closed where
  refl _ := ⟨fun h => h, rfl⟩
  trans _ _ _ h h' := ⟨fun hs => h'.1 (h.1 hs), h'.2.trans h.2⟩

/-- Started with the view in `A`, the process keeps the agreement, returns with the view in `Q` and
raises with the view in `E`. -/
def Triple (S : Setting σ τ κ ρ ε χ) (i : ι) (q : θ) (A : ν → Prop) (p : Process σ τ κ ρ ε α)
    (Q : α → ν → Prop) (E : ν → Prop) : Prop :=
  ∀ s, P.Inv s → A (P.view i s) →
    p.Ensures S (P.contract i q) s fun r s' =>
      P.Inv s' ∧ onResult (fun a => Q a (P.view i s')) (fun _ => E (P.view i s')) r

section Rules

variable {P} {S : Setting σ τ κ ρ ε χ} {i : ι} {q : θ} {A : ν → Prop} {Q : α → ν → Prop} {E : ν → Prop}

theorem triple_done {r : Except ε α}
    (h : ∀ v, A v → onResult (fun a => Q a v) (fun _ => E v) r) :
    P.Triple S i q A (.done r : Process σ τ κ ρ ε α) Q E := by
  intro s hs hA s' hs'
  refine ⟨hs'.1 hs, ?_⟩
  rw [hs'.2]
  exact h _ hA

theorem triple_pure {a : α} (h : ∀ v, A v → Q a v) :
    P.Triple S i q A (pure a : Process σ τ κ ρ ε α) Q E :=
  triple_done h

theorem triple_throw {e : ε} (h : ∀ v, A v → E v) :
    P.Triple S i q A (Process.throw e : Process σ τ κ ρ ε α) Q E :=
  triple_done h

/-- A reading that may raise: its value is about the state it was read in. -/
theorem triple_inspect {f : σ → Except ε α}
    (h : ∀ s, P.Inv s → A (P.view i s) →
      onResult (fun a => Q a (P.view i s)) (fun _ => E (P.view i s)) (f s)) :
    P.Triple S i q A (Process.inspect f : Process σ τ κ ρ ε α) Q E := by
  intro s hs hA s' hs' t ht
  have hinv := hs'.1 hs
  have hview : A (P.view i s') := by rwa [hs'.2]
  refine ⟨ht.1 hinv, ?_⟩
  rw [ht.2]
  exact h s' hinv hview

theorem triple_get {f : σ → α} (h : ∀ s, P.Inv s → A (P.view i s) → Q (f s) (P.view i s)) :
    P.Triple S i q A (Process.get f : Process σ τ κ ρ ε α) Q E :=
  triple_inspect (f := fun s => .ok (f s)) h

theorem triple_commit {t : τ} {Q : Unit → ν → Prop}
    (hok : ∀ s u, P.Inv s → A (P.view i s) → S.ready t s = true → S.exec t s = .ok u →
      P.Keeps i q s (.inl t) u ∧ Q () (P.view i u))
    (herror : ∀ s e, P.Inv s → A (P.view i s) → S.exec t s = .error e → E (P.view i s)) :
    P.Triple S i q A (Process.commit t : Process σ τ κ ρ ε Unit) Q E := by
  intro s hs hA s' hs' hready
  have hinv := hs'.1 hs
  have hview : A (P.view i s') := by rwa [hs'.2]
  constructor
  · intro u hu
    obtain ⟨hkeeps, hQ⟩ := hok s' u hinv hview hready hu
    refine ⟨fun _ => hkeeps, fun v hv => ⟨hv.1 hkeeps.inv, ?_⟩⟩
    rw [hv.2]
    exact hQ
  · intro e he v hv
    refine ⟨hv.1 hinv, ?_⟩
    rw [hv.2]
    exact herror s' e hinv hview he

theorem triple_query {k : κ} {Q : ρ → ν → Prop}
    (h : ∀ s c, P.Inv s → A (P.view i s) → P.Keeps i q s (.inr k) (S.answer k s c).2 ∧
      onResult (fun a => Q a (P.view i (S.answer k s c).2))
        (fun _ => E (P.view i (S.answer k s c).2)) (S.answer k s c).1) :
    P.Triple S i q A (Process.query k : Process σ τ κ ρ ε ρ) Q E := by
  intro s hs hA s' hs' c
  have hinv := hs'.1 hs
  have hview : A (P.view i s') := by rwa [hs'.2]
  obtain ⟨hkeeps, hres⟩ := h s' c hinv hview
  refine ⟨fun _ => hkeeps, fun v hv => ⟨hv.1 hkeeps.inv, ?_⟩⟩
  rw [hv.2]
  exact hres

variable {p : Process σ τ κ ρ ε α}

/-- What holds from every view in `A` holds from `A`. -/
theorem triple_of_forall (h : ∀ v, A v → P.Triple S i q (· = v) p Q E) : P.Triple S i q A p Q E :=
  fun s hs hA => h _ hA s hs rfl

theorem Triple.conseq {A' E' : ν → Prop} {Q' : α → ν → Prop} (h : P.Triple S i q A p Q E)
    (hA : ∀ v, A' v → A v) (hQ : ∀ a v, Q a v → Q' a v) (hE : ∀ v, E v → E' v) :
    P.Triple S i q A' p Q' E' := by
  intro s hs hA'
  refine (h s hs (hA _ hA')).mono ?_
  intro r t ht
  refine ⟨ht.1, ?_⟩
  cases r with
  | ok a => exact hQ _ _ ht.2
  | error e => exact hE _ ht.2

theorem triple_andThen {f : Except ε α → Process σ τ κ ρ ε β} {B : Except ε α → ν → Prop}
    {R : β → ν → Prop} (hp : ∀ s, P.Inv s → A (P.view i s) →
      p.Ensures S (P.contract i q) s fun r s' => P.Inv s' ∧ B r (P.view i s'))
    (hf : ∀ r, P.Triple S i q (B r) (f r) R E) : P.Triple S i q A (p.andThen f) R E := by
  intro s hs hA
  rw [Process.ensures_andThen (P.contract_closed i q)]
  refine (hp s hs hA).mono ?_
  intro r t ht
  exact hf r t ht.1 ht.2

theorem triple_bind {f : α → Process σ τ κ ρ ε β} {R : β → ν → Prop} (hp : P.Triple S i q A p Q E)
    (hf : ∀ a, P.Triple S i q (Q a) (f a) R E) : P.Triple S i q A (p >>= f) R E := by
  change P.Triple S i q A (p.bind f) R E
  refine triple_andThen (B := fun r v => onResult (fun a => Q a v) (fun _ => E v) r) hp ?_
  intro r
  cases r with
  | ok a => exact hf a
  | error e => exact triple_done fun v hv => hv

theorem triple_tryCatch {handler : ε → Process σ τ κ ρ ε α} {B : ν → Prop}
    (hp : P.Triple S i q A p Q B) (hh : ∀ e, P.Triple S i q B (handler e) Q E) :
    P.Triple S i q A (p.tryCatch handler) Q E := by
  refine triple_andThen (B := fun r v => onResult (fun a => Q a v) (fun _ => B v) r) hp ?_
  intro r
  cases r with
  | ok a => exact triple_done fun v hv => hv
  | error e => exact hh e

theorem triple_andFinally {cleanup : Process σ τ κ ρ ε Unit} {B : α → ν → Prop} {F : ν → Prop}
    (hp : P.Triple S i q A p B F) (hok : ∀ a, P.Triple S i q (B a) cleanup (fun _ => Q a) E)
    (herror : P.Triple S i q F cleanup (fun _ => E) E) :
    P.Triple S i q A (p.andFinally cleanup) Q E := by
  refine triple_andThen (B := fun r v => onResult (fun a => B a v) (fun _ => F v) r) hp ?_
  intro r
  cases r with
  | ok a =>
    refine triple_andThen
      (B := fun r v => onResult (fun _ => Q a v) (fun _ => E v) r) (hok a) ?_
    intro r
    cases r with
    | ok _ => exact triple_done fun v hv => hv
    | error e => exact triple_done fun v hv => hv
  | error e =>
    refine triple_andThen
      (B := fun r v => onResult (fun _ => E v) (fun _ => E v) r) herror ?_
    intro r
    cases r with
    | ok _ => exact triple_done fun v hv => hv
    | error e' => exact triple_done fun v hv => hv

end Rules
end Protocol

/-! ## Machines -/

/-- A thread: the request it serves and what is left of its process. -/
structure Thread (θ σ τ κ ρ ε α : Type) where
  request : θ
  rest : Process σ τ κ ρ ε α

/-- A shared state, and at most one thread under each name. -/
structure Machine (ι θ σ τ κ ρ ε α : Type) where
  state : σ
  threads : ι → Option (Thread θ σ τ κ ρ ε α)

/-- The steps of a machine. -/
inductive Label (ι θ χ : Type) where
  | start (i : ι) (request : θ)
  | advance (i : ι) (choice : χ)
  | finish (i : ι)
  | stop
  deriving DecidableEq

/-- How requests are served, and what a stop of the machine leaves of the state. -/
structure Service (ι θ σ τ κ ρ ε χ α : Type) where
  setting : Setting σ τ κ ρ ε χ
  program : ι → θ → Process σ τ κ ρ ε α
  stopped : σ → σ

namespace Machine

variable {ι θ σ τ κ ρ ε χ α : Type} {ν : Type u}

/-- The machine with no thread. -/
def idle (s : σ) : Machine ι θ σ τ κ ρ ε α := ⟨s, fun _ => none⟩

section Steps

variable [DecidableEq ι] (V : Service ι θ σ τ κ ρ ε χ α)

/-- The machine after one node of the thread `i`. -/
def resume (m : Machine ι θ σ τ κ ρ ε α) (i : ι) (q : θ) (s : σ) (p : Process σ τ κ ρ ε α) :
    Machine ι θ σ τ κ ρ ε α :=
  ⟨s, Function.update m.threads i (some ⟨q, p⟩)⟩

/-- One step of the machine, if it can be taken. -/
def next (m : Machine ι θ σ τ κ ρ ε α) : Label ι θ χ → Option (Machine ι θ σ τ κ ρ ε α)
  | .start i q =>
    match m.threads i with
    | none => some (m.resume i q m.state (V.program i q))
    | some _ => none
  | .advance i c =>
    match m.threads i with
    | some ⟨q, .read f⟩ => some (m.resume i q m.state (f m.state))
    | some ⟨q, .write t f⟩ =>
      if V.setting.ready t m.state then
        match V.setting.exec t m.state with
        | .ok s => some (m.resume i q s (f (.ok ())))
        | .error e => some (m.resume i q m.state (f (.error e)))
      else none
    | some ⟨q, .ask k f⟩ =>
      some (m.resume i q (V.setting.answer k m.state c).2 (f (V.setting.answer k m.state c).1))
    | _ => none
  | .finish i =>
    match m.threads i with
    | some ⟨_, .done _⟩ => some ⟨m.state, Function.update m.threads i none⟩
    | _ => none
  | .stop => some (idle (V.stopped m.state))

/-- The step relation of the machine. -/
def step (m : Machine ι θ σ τ κ ρ ε α) (l : Label ι θ χ) (m' : Machine ι θ σ τ κ ρ ε α) : Prop :=
  m.next V l = some m'

/-- Play a list of steps, each of which has to meet a condition. -/
def play (ok : Machine ι θ σ τ κ ρ ε α → Label ι θ χ → Bool) (m : Machine ι θ σ τ κ ρ ε α) :
    List (Label ι θ χ) → Option (Machine ι θ σ τ κ ρ ε α)
  | [] => some m
  | l :: ls => if ok m l then (m.next V l).bind fun m' => m'.play ok ls else none

/-- The transaction or the question of a step, with the thread that takes it and its request.  A
transaction that raises changes nothing and is none. -/
def event (m : Machine ι θ σ τ κ ρ ε α) : Label ι θ χ → Option (ι × θ × (τ ⊕ κ))
  | .advance i _ =>
    match m.threads i with
    | some ⟨q, .write t _⟩ =>
      match V.setting.exec t m.state with
      | .ok _ => some (i, q, .inl t)
      | .error _ => none
    | some ⟨q, .ask k _⟩ => some (i, q, .inr k)
    | _ => none
  | _ => none

variable {V}

variable {ls : List (Label ι θ χ)}

/-- A list of steps that can be played is a run whose steps meet the condition. -/
theorem run_of_play {ok : Machine ι θ σ τ κ ρ ε α → Label ι θ χ → Bool}
    {m m' : Machine ι θ σ τ κ ρ ε α} (h : m.play V ok ls = some m') :
    Run (restrict (step V) fun m l => ok m l = true) m ls m' := by
  induction ls generalizing m with
  | nil =>
    rw [← Option.some.inj h]
    exact .nil
  | cons l ls ih =>
    unfold play at h
    split at h
    next hok =>
      obtain ⟨m₁, hstep, hrest⟩ := Option.bind_eq_some_iff.mp h
      exact Run.append (.snoc .nil ⟨hstep, hok⟩) (ih hrest)
    next => cases h

/-- A step that is not an event leaves the state alone, or stops the machine. -/
theorem state_of_next {m m' : Machine ι θ σ τ κ ρ ε α} {l : Label ι θ χ}
    (h : m.next V l = some m') (hevent : m.event V l = none) :
    m'.state = m.state ∨ (l = .stop ∧ m'.state = V.stopped m.state) := by
  cases l with
  | start i q =>
    simp only [next] at h
    split at h
    · rw [← Option.some.inj h]
      exact .inl rfl
    · cases h
  | advance i c =>
    simp only [next, event] at h hevent
    split at h
    next => 
      rw [← Option.some.inj h]
      exact .inl rfl
    next t f hthread =>
      simp only [hthread] at hevent
      split at h
      next hready =>
        cases hexec : V.setting.exec t m.state with
        | ok s => simp [hexec] at hevent
        | error e =>
          rw [hexec] at h
          rw [← Option.some.inj h]
          exact .inl rfl
      next => cases h
    next k f hthread => simp [hthread] at hevent
    next => cases h
  | finish i =>
    simp only [next] at h
    split at h
    · rw [← Option.some.inj h]
      exact .inl rfl
    · cases h
  | stop =>
    rw [← Option.some.inj h]
    exact .inr ⟨rfl, rfl⟩

omit [DecidableEq ι] in
/-- An event is the step of a thread that serves the request. -/
theorem thread_of_event {m : Machine ι θ σ τ κ ρ ε α} {l : Label ι θ χ} {i : ι} {q : θ}
    {e : τ ⊕ κ} (h : m.event V l = some (i, q, e)) : ∃ p, m.threads i = some ⟨q, p⟩ := by
  cases l with
  | advance j c =>
    simp only [event] at h
    split at h
    next q' t f hthread =>
      split at h
      · simp only [Option.some.injEq, Prod.mk.injEq] at h
        obtain ⟨rfl, rfl, -⟩ := h
        exact ⟨_, hthread⟩
      · cases h
    next q' k f hthread =>
      simp only [Option.some.injEq, Prod.mk.injEq] at h
      obtain ⟨rfl, rfl, -⟩ := h
      exact ⟨_, hthread⟩
    next => cases h
  | start j q' => exact absurd h (by simp [event])
  | finish j => exact absurd h (by simp [event])
  | stop => exact absurd h (by simp [event])

/-- A thread serves the request that it was started with. -/
theorem request_of_next {m m' : Machine ι θ σ τ κ ρ ε α} {l : Label ι θ χ}
    (h : m.next V l = some m') {i : ι} {q : θ} {p : Process σ τ κ ρ ε α}
    (hp : m'.threads i = some ⟨q, p⟩) :
    (∃ p', m.threads i = some ⟨q, p'⟩) ∨ l = .start i q := by
  have hresume : ∀ (j : ι) (q' : θ) (s : σ) (p' : Process σ τ κ ρ ε α),
      m' = m.resume j q' s p' → (∃ p'', m.threads j = some ⟨q', p''⟩) ∨ l = .start j q' →
        (∃ p'', m.threads i = some ⟨q, p''⟩) ∨ l = .start i q := by
    rintro j q' s p' rfl hj
    by_cases hij : i = j
    · subst hij
      simp only [resume, Function.update_self, Option.some.injEq, Thread.mk.injEq] at hp
      obtain ⟨rfl, -⟩ := hp
      exact hj
    · simp only [resume, Function.update_of_ne hij] at hp
      exact .inl ⟨p, hp⟩
  cases l with
  | start j q' =>
    simp only [next] at h
    split at h
    · exact hresume j q' _ _ (Option.some.inj h).symm (.inr rfl)
    · cases h
  | advance j c =>
    simp only [next] at h
    split at h
    next q' f hthread => exact hresume j q' _ _ (Option.some.inj h).symm (.inl ⟨_, hthread⟩)
    next q' t f hthread =>
      split at h
      · split at h
        · exact hresume j q' _ _ (Option.some.inj h).symm (.inl ⟨_, hthread⟩)
        · exact hresume j q' _ _ (Option.some.inj h).symm (.inl ⟨_, hthread⟩)
      · cases h
    next q' k f hthread => exact hresume j q' _ _ (Option.some.inj h).symm (.inl ⟨_, hthread⟩)
    next => cases h
  | finish j =>
    simp only [next] at h
    split at h
    · rw [← Option.some.inj h] at hp
      by_cases hij : i = j
      · subst hij
        simp only [Function.update_self] at hp
        cases hp
      · simp only [Function.update_of_ne hij] at hp
        exact .inl ⟨p, hp⟩
    · cases h
  | stop =>
    rw [← Option.some.inj h] at hp
    exact absurd hp (by simp [idle])

/-- What an observer of the steps records along a list of them. -/
def collect {γ : Type} (observe : Machine ι θ σ τ κ ρ ε α → Label ι θ χ → List γ)
    (V : Service ι θ σ τ κ ρ ε χ α) (m : Machine ι θ σ τ κ ρ ε α) : List (Label ι θ χ) → List γ
  | [] => []
  | l :: ls =>
    match m.next V l with
    | some m' => observe m l ++ m'.collect observe V ls
    | none => []

end Steps

/-! ## Soundness -/

section Sound

variable {V : Service ι θ σ τ κ ρ ε χ α} {P : Protocol ι θ σ τ κ ν}
  {post : ι → θ → Except ε α → σ → Prop} {m m' : Machine ι θ σ τ κ ρ ε α} {l : Label ι θ χ}

/-- The invariant holds, and every thread still ensures what its request promised. -/
structure Sound (V : Service ι θ σ τ κ ρ ε χ α) (P : Protocol ι θ σ τ κ ν)
    (post : ι → θ → Except ε α → σ → Prop) (m : Machine ι θ σ τ κ ρ ε α) : Prop where
  inv : P.Inv m.state
  threads : ∀ i q p, m.threads i = some ⟨q, p⟩ →
    p.Ensures V.setting (P.contract i q) m.state (post i q)

/-- The machine with no thread is sound. -/
theorem sound_idle {s : σ} (h : P.Inv s) : Sound V P post (idle s) where
  inv := h
  threads i q p hp := absurd hp (by simp [idle])

variable [DecidableEq ι]

/-- A step of one thread leaves a sound machine, when it kept the agreement. -/
theorem Sound.resume (h : Sound V P post m) {i : ι} {q : θ} {s : σ} {p : Process σ τ κ ρ ε α}
    (hs : P.Inv s) (hothers : ∀ j, j ≠ i → P.view j s = P.view j m.state)
    (hp : p.Ensures V.setting (P.contract i q) s (post i q)) :
    Sound V P post (m.resume i q s p) where
  inv := hs
  threads j q' p' hp' := by
    by_cases hj : j = i
    · subst hj
      simp only [Machine.resume, Function.update_self, Option.some.injEq, Thread.mk.injEq] at hp'
      obtain ⟨rfl, rfl⟩ := hp'
      exact hp
    · simp only [Machine.resume, Function.update_of_ne hj] at hp'
      exact (h.threads j q' p' hp').rely (P.contract_closed j q') ⟨fun _ => hs, hothers j hj⟩

/-- What a step of a sound machine can do: its event keeps the agreement. -/
theorem Sound.keeps (h : Sound V P post m) (hnext : m.next V l = some m') {i : ι} {q : θ}
    {e : τ ⊕ κ} (he : m.event V l = some (i, q, e)) : P.Keeps i q m.state e m'.state := by
  cases l with
  | advance j c =>
    simp only [next, event] at hnext he
    split at hnext
    next hthread => simp [hthread] at he
    next q' t f hthread =>
      have hens := h.threads j q' _ hthread m.state ((P.contract_closed j q').refl _)
      simp only [hthread] at he
      split at hnext
      next hready =>
        cases hexec : V.setting.exec t m.state with
        | error e' => simp [hexec] at he
        | ok s =>
          simp only [hexec, Option.some.injEq, Prod.mk.injEq] at he hnext
          obtain ⟨rfl, rfl, rfl⟩ := he
          subst hnext
          exact ((hens hready).1 s hexec).1 h.inv
      next => cases hnext
    next q' k f hthread =>
      have hens := h.threads j q' _ hthread m.state ((P.contract_closed j q').refl _) c
      simp only [hthread, Option.some.injEq, Prod.mk.injEq] at he hnext
      obtain ⟨rfl, rfl, rfl⟩ := he
      subst hnext
      exact hens.1 h.inv
    next => cases hnext
  | start j q' => simp [event] at he
  | finish j => simp [event] at he
  | stop => simp [event] at he

/-- Every step leaves a sound machine, when requests are served as promised and a stop keeps the
invariant. -/
theorem Sound.next (h : Sound V P post m) (hnext : m.next V l = some m')
    (hstart : ∀ i q, l = .start i q →
      (V.program i q).Ensures V.setting (P.contract i q) m.state (post i q))
    (hstop : ∀ s, P.Inv s → P.Inv (V.stopped s)) : Sound V P post m' := by
  cases l with
  | start i q =>
    simp only [Machine.next] at hnext
    split at hnext
    · rw [← Option.some.inj hnext]
      exact h.resume h.inv (fun _ _ => rfl) (hstart i q rfl)
    · cases hnext
  | advance i c =>
    have hkeeps := fun q e => h.keeps (i := i) (q := q) (e := e) hnext
    simp only [Machine.next, event] at hnext hkeeps
    split at hnext
    next q f hthread =>
      have hens := h.threads i q _ hthread m.state ((P.contract_closed i q).refl _)
      rw [← Option.some.inj hnext]
      exact h.resume h.inv (fun _ _ => rfl) hens
    next q t f hthread =>
      have hens := h.threads i q _ hthread m.state ((P.contract_closed i q).refl _)
      simp only [hthread] at hkeeps
      split at hnext
      next hready =>
        cases hexec : V.setting.exec t m.state with
        | ok s =>
          simp only [hexec] at hnext hkeeps
          cases hnext
          have hk := hkeeps q (.inl t) rfl
          exact h.resume hk.inv hk.others ((hens hready).1 s hexec).2
        | error e =>
          rw [hexec] at hnext
          rw [← Option.some.inj hnext]
          exact h.resume h.inv (fun _ _ => rfl) ((hens hready).2 e hexec)
      next => cases hnext
    next q k f hthread =>
      have hens := h.threads i q _ hthread m.state ((P.contract_closed i q).refl _) c
      simp only [hthread] at hkeeps
      cases hnext
      have hk := hkeeps q (.inr k) rfl
      exact h.resume hk.inv hk.others hens.2
    next => cases hnext
  | finish i =>
    simp only [Machine.next] at hnext
    split at hnext
    · rw [← Option.some.inj hnext]
      refine ⟨h.inv, ?_⟩
      intro j q' p' hp'
      by_cases hj : j = i
      · subst hj
        simp [Function.update_self] at hp'
      · simp only [Function.update_of_ne hj] at hp'
        exact h.threads j q' p' hp'
    · cases hnext
  | stop =>
    rw [← Option.some.inj hnext]
    exact sound_idle (hstop _ h.inv)

/-- **The threads together.**  When every admitted request is served as promised and a stop keeps
the invariant, every machine that a run of admitted requests reaches is sound. -/
theorem sound_of_run {ok : Machine ι θ σ τ κ ρ ε α → Label ι θ χ → Prop}
    {ls : List (Label ι θ χ)} (hrun : Run (restrict (step V) ok) m ls m')
    (h : Sound V P post m)
    (hstart : ∀ m i q, Sound V P post m → ok m (.start i q) →
      (V.program i q).Ensures V.setting (P.contract i q) m.state (post i q))
    (hstop : ∀ s, P.Inv s → P.Inv (V.stopped s)) : Sound V P post m' := by
  refine hrun.invariant h ?_
  intro t l u ht hstep
  refine ht.next hstep.1 ?_ hstop
  intro i q hl
  subst hl
  exact hstart t i q ht hstep.2

end Sound
end Machine
end Library
end OpenstackPlatform
