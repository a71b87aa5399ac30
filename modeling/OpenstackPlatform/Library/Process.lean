import Mathlib.Data.List.Basic

/-!
# Processes between a state and an environment

A `Process` is what one thread still has to do, as data: it reads the state, commits transactions,
asks its environment questions and ends with a result or an exception.  Transactions and questions
are values, so a step can be observed, and a stop of the thread is simply that it takes no further
step: there is nothing to model about it inside the process.

A `Setting` says when a transaction can run, what it does and how the environment answers.  A
transaction that is not ready waits: taking a lock is one.  An answer depends on the state and on a
choice, which is everything about the environment that is not determined, and it may change the
state, whether it reports a success or a failure.

A `Contract` says what other threads may do between two steps (`rely`) and what the process may do
itself.  `Ensures S G p s Q` says that, started in `s` and with the other threads keeping to
`G.rely`, every transaction that `p` commits and every question that it asks is allowed by `G`, and
that every result satisfies `Q`.  It is computed by recursion on the process, so a step is unfolded by
definition, and the rules are for what is built from processes:

* `ensures_andThen`: sequence.
* `Ensures.mono`, `Ensures.rely`: weakening, and what other threads leave true.
-/

namespace OpenstackPlatform
namespace Library

/-- What is left of a thread: its state `σ`, transactions `τ`, questions `κ`, answers `ρ`,
exceptions `ε` and result `α`. -/
inductive Process (σ τ κ ρ ε α : Type) where
  | done (result : Except ε α)
  | read (next : σ → Process σ τ κ ρ ε α)
  | write (transaction : τ) (next : Except ε Unit → Process σ τ κ ρ ε α)
  | ask (question : κ) (next : Except ε ρ → Process σ τ κ ρ ε α)

/-- A property of the value of a computation, and one of its exception. -/
def onResult {ε α : Type} (ok : α → Prop) (error : ε → Prop) : Except ε α → Prop
  | .ok a => ok a
  | .error e => error e

namespace Process

variable {σ τ κ ρ ε α β : Type}

/-- Go on with the result of a process, whether it is a value or an exception. -/
def andThen : Process σ τ κ ρ ε α → (Except ε α → Process σ τ κ ρ ε β) → Process σ τ κ ρ ε β
  | done r, f => f r
  | read next, f => read fun s => (next s).andThen f
  | write t next, f => write t fun r => (next r).andThen f
  | ask q next, f => ask q fun r => (next r).andThen f

/-- Run one process and then the next. -/
protected def bind (p : Process σ τ κ ρ ε α) (f : α → Process σ τ κ ρ ε β) :
    Process σ τ κ ρ ε β :=
  p.andThen fun
    | .ok a => f a
    | .error e => done (.error e)

instance : Monad (Process σ τ κ ρ ε) where
  pure a := done (.ok a)
  bind := Process.bind

/-- Raise an exception. -/
def throw (e : ε) : Process σ τ κ ρ ε α := done (.error e)

/-- End with the result of a computation. -/
def lift (x : Except ε α) : Process σ τ κ ρ ε α := done x

/-- Read something of the state. -/
def get (f : σ → α) : Process σ τ κ ρ ε α := read fun s => done (.ok (f s))

/-- Read something of the state that may raise. -/
def inspect (f : σ → Except ε α) : Process σ τ κ ρ ε α := read fun s => done (f s)

/-- Run one transaction. -/
def commit (t : τ) : Process σ τ κ ρ ε Unit := write t done

/-- Ask one question. -/
def query (q : κ) : Process σ τ κ ρ ε ρ := ask q done

/-- Run a process, and a handler if it raises. -/
def tryCatch (p : Process σ τ κ ρ ε α) (handler : ε → Process σ τ κ ρ ε α) :
    Process σ τ κ ρ ε α :=
  p.andThen fun
    | .ok a => done (.ok a)
    | .error e => handler e

/-- Run a process and then a cleanup, whether the process raises or not. -/
def andFinally (p : Process σ τ κ ρ ε α) (cleanup : Process σ τ κ ρ ε Unit) :
    Process σ τ κ ρ ε α :=
  p.andThen fun r => cleanup.andThen fun
    | .ok _ => done r
    | .error e => done (.error e)

end Process

/-- When transactions can run and what they do, and how the environment answers. -/
structure Setting (σ τ κ ρ ε χ : Type) where
  ready : τ → σ → Bool
  exec : τ → σ → Except ε σ
  answer : κ → σ → χ → Except ε ρ × σ

/-- What other threads may do between two steps of a process, and what the process may do: the
transactions it may commit and the questions it may ask, with what each leaves behind. -/
structure Contract (σ τ κ : Type) where
  rely : σ → σ → Prop
  write : σ → τ → σ → Prop
  ask : σ → κ → σ → Prop

/-- Other threads may also do nothing, and may do one thing after another. -/
structure Contract.Closed {σ τ κ : Type} (G : Contract σ τ κ) : Prop where
  refl : ∀ s, G.rely s s
  trans : ∀ s t u, G.rely s t → G.rely t u → G.rely s u

namespace Process

variable {σ τ κ ρ ε χ α β : Type}

/-- The process keeps to a contract and ends with a result in `Q`. -/
def Ensures (S : Setting σ τ κ ρ ε χ) (G : Contract σ τ κ) :
    Process σ τ κ ρ ε α → σ → (Except ε α → σ → Prop) → Prop
  | done r, s, Q => ∀ s', G.rely s s' → Q r s'
  | read next, s, Q => ∀ s', G.rely s s' → Ensures S G (next s') s' Q
  | write t next, s, Q => ∀ s', G.rely s s' → S.ready t s' = true →
    (∀ u, S.exec t s' = .ok u → G.write s' t u ∧ Ensures S G (next (.ok ())) u Q) ∧
      ∀ e, S.exec t s' = .error e → Ensures S G (next (.error e)) s' Q
  | ask q next, s, Q => ∀ s', G.rely s s' → ∀ c,
    G.ask s' q (S.answer q s' c).2 ∧
      Ensures S G (next (S.answer q s' c).1) (S.answer q s' c).2 Q

section Rules

variable {S : Setting σ τ κ ρ ε χ} {G : Contract σ τ κ} {s : σ} {Q : Except ε α → σ → Prop}

/-- What other threads do leaves true what a process ensures. -/
theorem Ensures.rely {p : Process σ τ κ ρ ε α} (hG : G.Closed) (h : Ensures S G p s Q) {s' : σ}
    (hs : G.rely s s') : Ensures S G p s' Q := by
  cases p with
  | done r => exact fun t ht => h t (hG.trans _ _ _ hs ht)
  | read next => exact fun t ht => h t (hG.trans _ _ _ hs ht)
  | write t next => exact fun u hu => h u (hG.trans _ _ _ hs hu)
  | ask q next => exact fun t ht => h t (hG.trans _ _ _ hs ht)

/-- A weaker postcondition is ensured too. -/
theorem Ensures.mono {p : Process σ τ κ ρ ε α} {Q' : Except ε α → σ → Prop}
    (h : Ensures S G p s Q) (hQ : ∀ r s, Q r s → Q' r s) : Ensures S G p s Q' := by
  induction p generalizing s with
  | done r => exact fun t ht => hQ _ _ (h t ht)
  | read next ih => exact fun t ht => ih t (h t ht)
  | write t next ih =>
    intro s' hs' hready
    obtain ⟨hok, herror⟩ := h s' hs' hready
    exact ⟨fun u hu => ⟨(hok u hu).1, ih _ (hok u hu).2⟩, fun e he => ih _ (herror e he)⟩
  | ask q next ih => exact fun t ht c => ⟨(h t ht c).1, ih _ (h t ht c).2⟩

theorem ensures_andThen {p : Process σ τ κ ρ ε α} {f : Except ε α → Process σ τ κ ρ ε β}
    {R : Except ε β → σ → Prop} (hG : G.Closed) :
    Ensures S G (p.andThen f) s R ↔ Ensures S G p s fun r s => Ensures S G (f r) s R := by
  induction p generalizing s with
  | done r =>
    constructor
    · intro h t ht
      exact Ensures.rely hG h ht
    · intro h
      exact h s (hG.refl s)
  | read next ih => exact forall_congr' fun t => imp_congr_right fun _ => ih t
  | write t next ih =>
    refine forall_congr' fun s' => imp_congr_right fun _ => imp_congr_right fun _ => ?_
    exact and_congr (forall_congr' fun u => imp_congr_right fun _ => and_congr_right fun _ => ih _)
      (forall_congr' fun e => imp_congr_right fun _ => ih _)
  | ask q next ih =>
    exact forall_congr' fun t => imp_congr_right fun _ => forall_congr' fun c =>
      and_congr_right fun _ => ih _

end Rules
end Process
end Library
end OpenstackPlatform
