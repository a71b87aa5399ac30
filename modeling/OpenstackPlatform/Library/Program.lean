import Mathlib.Data.List.Basic

/-!
# Programs that may stop between commits

A `Program σ ε α` reads a state, commits new states one after another and returns a value or raises
an exception.  Its `Trace` keeps every state it committed, so a stop of the process is not part of
the program: the state it leaves behind is the first state or any committed one.

`Always p s I Q` says that, started in `s`, the program commits only states that satisfy `I`, and
that its result and its last state satisfy `Q`.  One rule for each way to build a program reduces
such a statement to its transactions:

* `always_pure`, `always_throw`, `always_read`, `always_inspect`, `always_commit`: the steps.
* `always_bind`, `always_tryCatch`: sequence and handlers; `always_bind_of_ok` and
  `always_tryCatch_of_ok` where the first program returns, `always_inspect_bind` where it reads.
* `Always.mono`, `Always.stop`: weakening, and what a stop leaves behind.
* `always_forM`: loops.
* `Ends`: statements about the result and the last state only.
-/

namespace OpenstackPlatform
namespace Library

/-- What a program did: the states it committed, oldest first, and how it ended. -/
structure Trace (σ ε α : Type) where
  commits : List σ
  result : Except ε α

namespace Trace

variable {σ ε α : Type}

/-- The last state of a trace that began in `s`. -/
def final (t : Trace σ ε α) (s : σ) : σ := t.commits.getLastD s

/-- A trace that follows earlier commits. -/
def after (commits : List σ) (t : Trace σ ε α) : Trace σ ε α := ⟨commits ++ t.commits, t.result⟩

/-- The last state of a trace that follows earlier commits. -/
theorem final_after (commits : List σ) (t : Trace σ ε α) (s : σ) :
    (after commits t).final s = t.final (commits.getLastD s) := by
  obtain ⟨commits', result⟩ := t
  cases commits' with
  | nil => simp [after, final]
  | cons a commits' =>
    simp only [after, final, List.getLastD_eq_getLast?, List.getLast?_append]
    simp [List.getLast?_cons]

end Trace

/-- A program over states `σ`, exceptions `ε` and results `α`. -/
structure Program (σ ε α : Type) where
  run : σ → Trace σ ε α

namespace Program

variable {σ ε α β : Type}

/-- Return a value. -/
protected def pure (a : α) : Program σ ε α := ⟨fun _ => ⟨[], .ok a⟩⟩

/-- Run one program and then the next. -/
protected def bind (p : Program σ ε α) (f : α → Program σ ε β) : Program σ ε β := ⟨fun s =>
  match (p.run s).result with
  | .ok a => ((f a).run ((p.run s).final s)).after (p.run s).commits
  | .error e => ⟨(p.run s).commits, .error e⟩⟩

instance : Monad (Program σ ε) where
  pure := Program.pure
  bind := Program.bind

/-- Raise an exception. -/
def throw (e : ε) : Program σ ε α := ⟨fun _ => ⟨[], .error e⟩⟩

/-- Read the state. -/
def read (f : σ → α) : Program σ ε α := ⟨fun s => ⟨[], .ok (f s)⟩⟩

/-- Read something of the state that may raise. -/
def inspect (f : σ → Except ε α) : Program σ ε α := ⟨fun s => ⟨[], f s⟩⟩

/-- Run one transaction: it commits a new state, or raises and changes nothing. -/
def commit (f : σ → Except ε σ) : Program σ ε Unit := ⟨fun s =>
  match f s with
  | .ok s' => ⟨[s'], .ok ()⟩
  | .error e => ⟨[], .error e⟩⟩

/-- Run a program, and a handler if it raises. -/
def tryCatch (p : Program σ ε α) (handler : ε → Program σ ε α) : Program σ ε α := ⟨fun s =>
  match (p.run s).result with
  | .ok a => ⟨(p.run s).commits, .ok a⟩
  | .error e => ((handler e).run ((p.run s).final s)).after (p.run s).commits⟩

/-- The states in which a stop can leave the world: the first one and every committed one. -/
def stops (p : Program σ ε α) (s : σ) : List σ := s :: (p.run s).commits

/-- The program commits only states in `I`, and ends with a result and a state in `Q`. -/
def Always (p : Program σ ε α) (s : σ) (I : σ → Prop) (Q : Except ε α → σ → Prop) : Prop :=
  (∀ t ∈ (p.run s).commits, I t) ∧ Q (p.run s).result ((p.run s).final s)

/-- How the program ends, whatever it commits on the way. -/
abbrev Ends (p : Program σ ε α) (s : σ) (Q : Except ε α → σ → Prop) : Prop :=
  Always p s (fun _ => True) Q

/-- A look at the state leaves it. -/
theorem final_inspect (f : σ → Except ε α) (s : σ) : ((inspect f).run s).final s = s := rfl

/-- A sequence whose first program returns ends as the next one does. -/
theorem result_bind_of_ok {p : Program σ ε α} {f : α → Program σ ε β} {s : σ} {a : α}
    (h : (p.run s).result = .ok a) :
    ((p >>= f).run s).result = ((f a).run ((p.run s).final s)).result := by
  change ((Program.bind p f).run s).result = _
  simp only [Program.bind, h, Trace.after]

section Rules

variable {s : σ} {I : σ → Prop} {Q : Except ε α → σ → Prop}

theorem always_pure {a : α} (h : Q (.ok a) s) : Always (pure a : Program σ ε α) s I Q :=
  ⟨fun _ ht => absurd ht List.not_mem_nil, h⟩

theorem always_throw {e : ε} (h : Q (.error e) s) : Always (throw e : Program σ ε α) s I Q :=
  ⟨fun _ ht => absurd ht List.not_mem_nil, h⟩

theorem always_read {f : σ → α} (h : Q (.ok (f s)) s) :
    Always (read f : Program σ ε α) s I Q :=
  ⟨fun _ ht => absurd ht List.not_mem_nil, h⟩

theorem always_inspect {f : σ → Except ε α} (h : Q (f s) s) :
    Always (inspect f : Program σ ε α) s I Q :=
  ⟨fun _ ht => absurd ht List.not_mem_nil, h⟩

theorem always_commit {f : σ → Except ε σ} {Q : Except ε Unit → σ → Prop}
    (hok : ∀ s', f s = .ok s' → I s' ∧ Q (.ok ()) s')
    (herror : ∀ e, f s = .error e → Q (.error e) s) : Always (commit f) s I Q := by
  simp only [Always, commit]
  cases hf : f s with
  | ok s' =>
    refine ⟨?_, (hok s' hf).2⟩
    intro t ht
    rw [List.mem_singleton.mp ht]
    exact (hok s' hf).1
  | error e => exact ⟨fun _ ht => absurd ht List.not_mem_nil, herror e hf⟩

/-- A transaction that does not raise. -/
theorem always_commit_of_ok {f : σ → Except ε σ} {s' : σ} {Q : Except ε Unit → σ → Prop}
    (h : f s = .ok s') (hI : I s') (hQ : Q (.ok ()) s') : Always (commit f) s I Q := by
  refine always_commit (fun t ht => ?_) fun e he => ?_
  · cases h.symm.trans ht
    exact ⟨hI, hQ⟩
  · rw [h] at he
    cases he

/-- What follows earlier commits commits only states in `I` when both do. -/
theorem forall_mem_after {commits : List σ} {t : Trace σ ε α} (h : ∀ u ∈ commits, I u)
    (h' : ∀ u ∈ t.commits, I u) : ∀ u ∈ (t.after commits).commits, I u :=
  fun u hu => (List.mem_append.mp hu).elim (h u) (h' u)

variable {p : Program σ ε α}

theorem always_bind {f : α → Program σ ε β} {R : Except ε β → σ → Prop}
    (hp : Always p s I fun r t =>
      match r with
      | .ok a => Always (f a) t I R
      | .error e => R (.error e) t) : Always (p >>= f) s I R := by
  obtain ⟨hcommits, hresult⟩ := hp
  change Always (Program.bind p f) s I R
  simp only [Always, Program.bind]
  cases hr : (p.run s).result with
  | ok a =>
    rw [hr] at hresult
    obtain ⟨hcommits', hresult'⟩ := hresult
    refine ⟨forall_mem_after hcommits hcommits', ?_⟩
    simp only [Trace.final_after]
    exact hresult'
  | error e =>
    rw [hr] at hresult
    exact ⟨hcommits, hresult⟩

/-- A program that returns, and then the next one. -/
theorem always_bind_of_ok {f : α → Program σ ε β} {R : Except ε β → σ → Prop} {A : α → σ → Prop}
    (hp : Always p s I fun r t => ∃ a, r = .ok a ∧ A a t) (hf : ∀ a t, A a t → Always (f a) t I R) :
    Always (p >>= f) s I R := by
  refine always_bind ⟨hp.1, ?_⟩
  obtain ⟨a, hr, ha⟩ := hp.2
  rw [hr]
  exact hf a _ ha

/-- Something is read that may raise, and then the next program runs. -/
theorem always_inspect_bind {f : σ → Except ε β} {k : β → Program σ ε α}
    (hok : ∀ b, f s = .ok b → Always (k b) s I Q) (herror : ∀ e, f s = .error e → Q (.error e) s) :
    Always (inspect f >>= k) s I Q := by
  refine always_bind (always_inspect ?_)
  cases hf : f s with
  | ok b => exact hok b hf
  | error e => exact herror e hf

/-- A program that returns does not run its handler. -/
theorem always_tryCatch_of_ok {handler : ε → Program σ ε α}
    (hp : Always p s I fun r t => (∃ a, r = .ok a) ∧ Q r t) : Always (tryCatch p handler) s I Q := by
  obtain ⟨hcommits, ⟨a, hr⟩, hQ⟩ := hp
  simp only [Always, tryCatch, hr]
  rw [hr] at hQ
  exact ⟨hcommits, hQ⟩

theorem always_tryCatch {handler : ε → Program σ ε α} (hp : Always p s I fun r t =>
      match r with
      | .ok a => Q (.ok a) t
      | .error e => Always (handler e) t I Q) : Always (tryCatch p handler) s I Q := by
  obtain ⟨hcommits, hresult⟩ := hp
  simp only [Always, tryCatch]
  cases hr : (p.run s).result with
  | ok a =>
    rw [hr] at hresult
    exact ⟨hcommits, hresult⟩
  | error e =>
    rw [hr] at hresult
    obtain ⟨hcommits', hresult'⟩ := hresult
    refine ⟨forall_mem_after hcommits hcommits', ?_⟩
    simp only [Trace.final_after]
    exact hresult'

theorem Always.mono {I' : σ → Prop} {Q' : Except ε α → σ → Prop} (h : Always p s I Q)
    (hI : ∀ t, I t → I' t) (hQ : ∀ r t, Q r t → Q' r t) : Always p s I' Q' :=
  ⟨fun t ht => hI t (h.1 t ht), hQ _ _ h.2⟩

/-- A program for each item of a list; `J done` holds once the items of `done` have had their
turn. -/
theorem always_forM {items : List α} {f : α → Program σ ε Unit} {Q : Except ε Unit → σ → Prop}
    {J : List α → σ → Prop}
    (hstep : ∀ done a rest, items = done ++ a :: rest → ∀ t, J done t →
      Always (f a) t I fun r u =>
        (r = .ok () → J (done ++ [a]) u) ∧ ∀ e, r = .error e → Q (.error e) u)
    (hend : ∀ t, J items t → Q (.ok ()) t) (hs : J [] s) : Always (items.forM f) s I Q := by
  suffices h : ∀ rest done, items = done ++ rest → ∀ t, J done t → Always (rest.forM f) t I Q from
    h items [] rfl s hs
  intro rest
  induction rest with
  | nil =>
    intro done hdone t ht
    rw [List.append_nil] at hdone
    exact always_pure (hend t (hdone ▸ ht))
  | cons a rest ih =>
    intro done hdone t ht
    show Always (f a >>= fun _ => rest.forM f) t I Q
    refine always_bind ((hstep done a rest hdone t ht).mono (fun _ h => h) fun r u hu => ?_)
    cases r with
    | ok _ => exact ih (done ++ [a]) (by simp [hdone]) u (hu.1 rfl)
    | error e => exact hu.2 e rfl

/-- A stop leaves the first state or one that satisfies the invariant. -/
theorem Always.stop (h : Always p s I Q) (hs : I s) {t : σ} (ht : t ∈ stops p s) : I t := by
  obtain rfl | ht := List.mem_cons.mp ht
  · exact hs
  · exact h.1 t ht

end Rules
end Program
end Library
end OpenstackPlatform
