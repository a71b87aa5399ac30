import Mathlib.Data.List.Basic

/-!
# What stands before what in a trace

A trace is a list of events, oldest first.  `Precedes a b es` says that the event `b` happens in the
trace after an event `a`; `AtEach b P es` says that `P` holds of what has happened each time that `b`
happens.  Both are read along an extended trace by `precedes_append` and `atEach_append`, so an
invariant over the trace of a run needs no positions.
-/

namespace OpenstackPlatform
namespace Library
namespace Trace

variable {ε : Type}

/-- The event `b` happens after an event `a`. -/
def Precedes (a b : ε) (es : List ε) : Prop :=
  ∃ before after, es = before ++ b :: after ∧ a ∈ before

/-- Each time that `b` happens, `P` holds of what happened before. -/
def AtEach (b : ε) (P : List ε → Prop) (es : List ε) : Prop :=
  ∀ before after, es = before ++ b :: after → P before

theorem atEach_nil (b : ε) (P : List ε → Prop) : AtEach b P [] := by
  intro before after heq
  exact absurd heq (by simp)

/-- Where an element of a joined list stands. -/
theorem append_eq_cons_iff {es es' before after : List ε} {b : ε} :
    es ++ es' = before ++ b :: after ↔
      (∃ rest, es = before ++ b :: rest ∧ after = rest ++ es') ∨
        ∃ rest, before = es ++ rest ∧ es' = rest ++ b :: after := by
  rw [List.append_eq_append_iff]
  constructor
  · rintro (⟨rest, hbefore, hes'⟩ | ⟨rest, hes, hcons⟩)
    · exact .inr ⟨rest, hbefore, hes'⟩
    · cases rest with
      | nil =>
        refine .inr ⟨[], ?_, ?_⟩
        · simpa using hes.symm
        · simpa using hcons.symm
      | cons c rest =>
        obtain ⟨rfl, rfl⟩ := List.cons.inj hcons
        exact .inl ⟨rest, hes, rfl⟩
  · rintro (⟨rest, hes, rfl⟩ | ⟨rest, hbefore, hes'⟩)
    · exact .inr ⟨b :: rest, hes, rfl⟩
    · exact .inl ⟨rest, hbefore, hes'⟩

theorem precedes_append {a b : ε} {es es' : List ε} :
    Precedes a b (es ++ es') ↔
      Precedes a b es ∨ (a ∈ es ∧ b ∈ es') ∨ Precedes a b es' := by
  constructor
  · rintro ⟨before, after, heq, ha⟩
    rcases append_eq_cons_iff.mp heq with ⟨rest, rfl, rfl⟩ | ⟨rest, rfl, rfl⟩
    · exact .inl ⟨before, rest, rfl, ha⟩
    · rcases List.mem_append.mp ha with ha | ha
      · exact .inr (.inl ⟨ha, by simp⟩)
      · exact .inr (.inr ⟨rest, after, rfl, ha⟩)
  · rintro (⟨before, after, rfl, ha⟩ | ⟨ha, hb⟩ | ⟨before, after, rfl, ha⟩)
    · exact ⟨before, after ++ es', by simp, ha⟩
    · obtain ⟨before, after, rfl⟩ := List.append_of_mem hb
      exact ⟨es ++ before, after, by simp, List.mem_append_left _ ha⟩
    · exact ⟨es ++ before, after, by simp, List.mem_append_right _ ha⟩

theorem atEach_append {b : ε} {P : List ε → Prop} {es es' : List ε} :
    AtEach b P (es ++ es') ↔ AtEach b P es ∧ AtEach b (fun rest => P (es ++ rest)) es' := by
  constructor
  · intro h
    refine ⟨fun before after heq => ?_, fun before after heq => ?_⟩
    · exact h before (after ++ es') (by rw [heq]; simp)
    · exact h (es ++ before) after (by rw [heq]; simp)
  · rintro ⟨hold, hnew⟩ before after heq
    rcases append_eq_cons_iff.mp heq with ⟨rest, hes, -⟩ | ⟨rest, rfl, hes'⟩
    · exact hold before rest hes
    · exact hnew rest after hes'

/-- What precedes something is in the trace. -/
theorem Precedes.mem {a b : ε} {es : List ε} (h : Precedes a b es) : a ∈ es ∧ b ∈ es := by
  obtain ⟨before, after, rfl, ha⟩ := h
  exact ⟨List.mem_append_left _ ha, by simp⟩

end Trace
end Library
end OpenstackPlatform
