import Mathlib.Data.List.Basic

/-!
# Checks that raise

Functions that return a value or raise an exception are computations in `Except`.  The file has one
rule for each way to build such a computation from others: it says when the computation returns.

* `demand`: raise unless a condition holds.
* `demand_ok_iff`, `bind_ok_iff`, `dite_ok_iff`, `forM_ok_iff`, `mapM_eq_ok`: when a computation
  returns.
-/

namespace OpenstackPlatform
namespace Library
namespace Checks

variable {ε α β : Type}

/-- `raise` unless a condition holds. -/
def demand (condition : Bool) (error : ε) : Except ε Unit :=
  if condition then .ok () else .error error

@[simp] theorem demand_ok_iff {condition : Bool} {error : ε} {u : Unit} :
    demand condition error = .ok u ↔ condition = true := by
  cases condition with
  | true => exact ⟨fun _ => rfl, fun _ => rfl⟩
  | false =>
    constructor
    · intro h
      cases h
    · intro h
      cases h

/-- A sequence returns when its first part returns and then the second. -/
theorem bind_ok_iff {x : Except ε α} {f : α → Except ε β} {b : β} :
    (x >>= f) = .ok b ↔ ∃ a, x = .ok a ∧ f a = .ok b := by
  cases x with
  | ok a =>
    constructor
    · intro h
      exact ⟨a, rfl, h⟩
    · rintro ⟨a', ha, h⟩
      cases ha
      exact h
  | error e =>
    constructor
    · intro h
      cases h
    · rintro ⟨a, ha, -⟩
      cases ha

/-- What stands behind a condition returns when the condition holds and it does. -/
theorem dite_ok_iff {p : Prop} [Decidable p] {f : p → Except ε α} {e : ε} {a : α} :
    (if h : p then f h else .error e) = .ok a ↔ ∃ h : p, f h = .ok a := by
  constructor
  · intro h
    split at h
    · exact ⟨_, h⟩
    · cases h
  · rintro ⟨hp, h⟩
    rw [dif_pos hp, h]

theorem ok_eq_ok_iff {a b : α} : (.ok b : Except ε α) = .ok a ↔ a = b :=
  ⟨fun h => (Except.ok.inj h).symm, fun h => h ▸ rfl⟩

/-- A check of each item of a list returns when each check does. -/
theorem forM_ok_iff {l : List α} {f : α → Except ε Unit} :
    l.forM f = .ok () ↔ ∀ a ∈ l, f a = .ok () := by
  induction l with
  | nil => exact ⟨fun _ a ha => absurd ha List.not_mem_nil, fun _ => rfl⟩
  | cons a l ih =>
    show (f a >>= fun _ => l.forM f) = .ok () ↔ _
    rw [bind_ok_iff, List.forall_mem_cons]
    constructor
    · rintro ⟨⟨⟩, ha, hl⟩
      exact ⟨ha, ih.mp hl⟩
    · rintro ⟨ha, hl⟩
      exact ⟨⟨⟩, ha, ih.mpr hl⟩

/-- A function that returns for each item of a list maps the list. -/
theorem mapM_eq_ok {f : α → Except ε β} {g : α → β} {l : List α}
    (h : ∀ a ∈ l, f a = .ok (g a)) : l.mapM f = .ok (l.map g) := by
  induction l with
  | nil => rfl
  | cons a l ih =>
    have hrest := ih fun c hc => h c (List.mem_cons_of_mem a hc)
    rw [List.mapM_cons, h a List.mem_cons_self, hrest]
    rfl

end Checks
end Library
end OpenstackPlatform
