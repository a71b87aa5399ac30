import OpenstackPlatform.Library.Run

/-!
# Versions that do not come back

A reader that takes its time remembers the version of what it is about to read, and lets what it
read count only if the version is the same at the end.  That is sound when a version, once left,
does not come back: equal versions then mean that nothing that counts happened in between.

`ver s` is the version of a state, `none` where nothing may count; `used s v` says that `v` may have
been seen by the time of `s`; `marked l` picks the steps that count.  `Versioned` says what single
steps must do, and `Versioned.unmarked` what follows for runs.
-/

namespace OpenstackPlatform
namespace Library

universe u v w

variable {σ : Type u} {ℓ : Type v} {ν : Type w}

/-- A step that counts leads to a version that was not used before, or to none; the others keep the
version, and what was used stays so. -/
structure Versioned (step : σ → ℓ → σ → Prop) (I : σ → Prop) (ver : σ → Option ν)
    (used : σ → ν → Prop) (marked : ℓ → Prop) : Prop where
  keeps : ∀ s l t, I s → step s l t → I t
  stays : ∀ s l t v, I s → step s l t → used s v → used t v
  quiet : ∀ s l t, I s → step s l t → ¬ marked l → ver t = ver s
  renews : ∀ s l t v, I s → step s l t → marked l → ver t = some v → ¬ used s v

namespace Versioned

variable {step : σ → ℓ → σ → Prop} {I : σ → Prop} {ver : σ → Option ν} {used : σ → ν → Prop}
  {marked : ℓ → Prop} {s t : σ} {ls : List ℓ} {v : ν}

theorem keeps_run (h : Versioned step I ver used marked) (hrun : Run step s ls t) (hI : I s) :
    I t :=
  hrun.invariant hI h.keeps

theorem stays_run (h : Versioned step I ver used marked) (hrun : Run step s ls t) (hI : I s)
    (hused : used s v) : used t v := by
  have hboth : I t ∧ used t v := by
    refine hrun.invariant (I := fun t => I t ∧ used t v) ⟨hI, hused⟩ ?_
    rintro t l u ⟨hIt, hused⟩ hstep
    exact ⟨h.keeps t l u hIt hstep, h.stays t l u v hIt hstep hused⟩
  exact hboth.2

/-- **A version that is there again was never left.** -/
theorem unmarked (h : Versioned step I ver used marked) (hrun : Run step s ls t) (hI : I s)
    (hused : used s v) (hver : ver t = some v) : ∀ l ∈ ls, ¬ marked l := by
  induction hrun with
  | nil =>
    intro l hl
    cases hl
  | @snoc ls t u l hrun hstep ih =>
    have hIt := h.keeps_run hrun hI
    have hquiet : ¬ marked l := fun hmarked =>
      h.renews t l u v hIt hstep hmarked hver (h.stays_run hrun hI hused)
    have hver' : ver t = some v := (h.quiet t l u hIt hstep hquiet).symm.trans hver
    intro l' hl'
    rcases List.mem_append.mp hl' with hold | hnew
    · exact ih hver' l' hold
    · obtain rfl := List.mem_singleton.mp hnew
      exact hquiet

end Versioned
end Library
end OpenstackPlatform
