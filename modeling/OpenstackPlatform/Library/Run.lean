import Mathlib.Data.List.Basic

/-!
# Runs of a labelled transition system

`step : σ → ℓ → σ → Prop` is one step under a label.  `Run step s ls t` is a run from `s` to `t`
whose labels, oldest first, are `ls`.

A property of every reachable state is proved by `Run.invariant`: it holds at the start and every
step keeps it.  A property of the states reached by runs whose steps meet a condition is the same
rule for the step relation `restrict step ok`, which adds the condition to each step;
`Run.of_restrict` forgets it again, so what was proved of every run is still available.

Where steps are computed, `runInputs` computes a run, and `Run.of_runInputs` says that it is one.
-/

namespace OpenstackPlatform
namespace Library

universe u v

variable {σ : Type u} {ℓ : Type v}

/-- A run of a labelled transition system, with its labels in order. -/
inductive Run (step : σ → ℓ → σ → Prop) (s : σ) : List ℓ → σ → Prop where
  | nil : Run step s [] s
  | snoc {ls : List ℓ} {t u : σ} {l : ℓ} :
      Run step s ls t → step t l u → Run step s (ls ++ [l]) u

/-- The steps that meet a condition on the state before the step and its label. -/
def restrict (step : σ → ℓ → σ → Prop) (ok : σ → ℓ → Prop) (s : σ) (l : ℓ) (t : σ) : Prop :=
  step s l t ∧ ok s l

namespace Run

variable {step : σ → ℓ → σ → Prop} {s t : σ} {ls : List ℓ}

/-- The invariant rule: what holds at the start and is kept by every step holds of every state
a run reaches. -/
theorem invariant {I : σ → Prop} (h : Run step s ls t) (hs : I s)
    (hstep : ∀ t l u, I t → step t l u → I u) : I t := by
  induction h with
  | nil => exact hs
  | snoc _ hl ih => exact hstep _ _ _ ih hl

/-- The invariant rule for a property of the labels seen so far and the state reached. -/
theorem invariant_trace {I : List ℓ → σ → Prop} (h : Run step s ls t) (hs : I [] s)
    (hstep : ∀ ls t l u, I ls t → step t l u → I (ls ++ [l]) u) : I ls t := by
  induction h with
  | nil => exact hs
  | snoc _ hl ih => exact hstep _ _ _ _ ih hl

/-- A run whose steps meet a condition is a run. -/
theorem of_restrict {ok : σ → ℓ → Prop} (h : Run (restrict step ok) s ls t) :
    Run step s ls t := by
  induction h with
  | nil => exact nil
  | snoc _ hl ih => exact snoc ih hl.1

/-- A run of a smaller step relation is a run of a larger one. -/
theorem mono {step' : σ → ℓ → σ → Prop} (hle : ∀ s l t, step s l t → step' s l t)
    (h : Run step s ls t) : Run step' s ls t := by
  induction h with
  | nil => exact nil
  | snoc _ hl ih => exact snoc ih (hle _ _ _ hl)

/-- Runs compose. -/
theorem append {u : σ} {ls' : List ℓ} (h : Run step s ls t) (h' : Run step t ls' u) :
    Run step s (ls ++ ls') u := by
  induction h' with
  | nil => rwa [List.append_nil]
  | snoc _ hl ih =>
    rw [← List.append_assoc]
    exact snoc ih hl

/-- A step in front of a run. -/
theorem cons {u : σ} {l : ℓ} (hl : step s l t) (h : Run step t ls u) : Run step s (l :: ls) u :=
  append (snoc nil hl) h

/-- A run under joined labels passes through a state between them. -/
theorem split {ls' : List ℓ} (h : Run step s (ls ++ ls') t) :
    ∃ m, Run step s ls m ∧ Run step m ls' t := by
  generalize hjoin : ls ++ ls' = whole at h
  induction h generalizing ls' with
  | nil =>
    obtain ⟨rfl, rfl⟩ := List.append_eq_nil_iff.mp hjoin
    exact ⟨s, nil, nil⟩
  | @snoc ls₀ m u l hrun hl ih =>
    rcases List.eq_nil_or_concat ls' with rfl | ⟨init, last, rfl⟩
    · rw [List.append_nil] at hjoin
      subst hjoin
      exact ⟨u, snoc hrun hl, nil⟩
    · rw [List.concat_eq_append, ← List.append_assoc] at hjoin
      obtain ⟨hinit, hlast⟩ := List.append_inj' hjoin rfl
      obtain rfl := (List.singleton_inj.mp hlast)
      obtain ⟨k, hfirst, hsecond⟩ := ih hinit
      refine ⟨k, hfirst, ?_⟩
      rw [List.concat_eq_append]
      exact snoc hsecond hl

/-- A run without steps stays where it is. -/
theorem eq_of_nil (h : Run step s [] t) : t = s := by
  generalize hnil : ([] : List ℓ) = ls at h
  cases h with
  | nil => rfl
  | snoc hrun hl => exact absurd hnil (by simp)

/-- A run that starts with a step. -/
theorem uncons {l : ℓ} (h : Run step s (l :: ls) t) : ∃ m, step s l m ∧ Run step m ls t := by
  rw [← List.singleton_append] at h
  obtain ⟨m, hone, hrest⟩ := h.split
  refine ⟨m, ?_, hrest⟩
  generalize hsingle : [l] = ls₀ at hone
  cases hone with
  | nil => cases hsingle
  | @snoc ls₁ k _ l' hrun hl =>
    obtain ⟨rfl, hlast⟩ := List.append_inj' ((List.nil_append [l]).trans hsingle) rfl
    obtain rfl := List.singleton_inj.mp hlast
    obtain rfl := eq_of_nil hrun
    exact hl

end Run

/-- A computed run of a step function is a run. -/
theorem Run.of_foldlM {next : σ → ℓ → Option σ} {s t : σ} {ls : List ℓ}
    (h : ls.foldlM next s = some t) : Run (fun s l t => next s l = some t) s ls t := by
  induction ls generalizing s with
  | nil =>
    cases h
    exact nil
  | cons l ls ih =>
    rw [List.foldlM_cons] at h
    obtain ⟨m, hnext, hrest⟩ := Option.bind_eq_some_iff.mp h
    exact cons hnext (ih hrest)

/-- The run of a step function on given inputs, with what each step answers. -/
def runInputs {ι ε : Type v} (next : σ → ι → Option (σ × ε)) :
    σ → List ι → Option (σ × List (ι × ε))
  | s, [] => some (s, [])
  | s, i :: is => match next s i with
    | some (t, e) => (runInputs next t is).map fun (u, ls) => (u, (i, e) :: ls)
    | none => none

theorem Run.of_runInputs {ι ε : Type v} {next : σ → ι → Option (σ × ε)} {s t : σ} {is : List ι}
    {ls : List (ι × ε)} (h : runInputs next s is = some (t, ls)) :
    Run (fun s (l : ι × ε) t => next s l.1 = some (t, l.2)) s ls t := by
  induction is generalizing s ls with
  | nil =>
    simp only [runInputs, Option.some.injEq, Prod.mk.injEq] at h
    obtain ⟨rfl, rfl⟩ := h
    exact nil
  | cons i is ih =>
    unfold runInputs at h
    split at h
    next m e hnext =>
      obtain ⟨⟨u, ls'⟩, hrest, heq⟩ := Option.map_eq_some_iff.mp h
      obtain ⟨rfl, rfl⟩ := Prod.mk.inj heq
      exact cons hnext (ih hrest)
    next => cases h

/-- The steps of a step function that meet a condition. -/
def guardedNext {ι ε : Type v} (next : σ → ι → Option (σ × ε)) (ok : σ → ι → Bool) (s : σ) (i : ι) :
    Option (σ × ε) :=
  if ok s i then next s i else none

theorem Run.of_guardedNext {ι ε : Type v} {next : σ → ι → Option (σ × ε)} {ok : σ → ι → Bool}
    {s t : σ} {is : List ι} {ls : List (ι × ε)}
    (h : runInputs (guardedNext next ok) s is = some (t, ls)) :
    Run (restrict (fun s (l : ι × ε) t => next s l.1 = some (t, l.2)) fun s l => ok s l.1 = true)
      s ls t := by
  refine (Run.of_runInputs h).mono fun s l t hnext => ?_
  unfold guardedNext at hnext
  split at hnext
  next hok => exact ⟨hnext, hok⟩
  next => cases hnext

end Library
end OpenstackPlatform
