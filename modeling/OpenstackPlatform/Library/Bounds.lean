import Mathlib.Order.Lattice

/-!
# Intervals with open and closed ends

A span of a linear order by its two bounds, each of which may be missing, and may be in the
interval or not.

* `Bound.isBelow`, `Bound.isAbove`: the keys on one side of a bound.
* `Span.admits`, `Span.intersect`, with `Span.admits_intersect`.
* `Span.admits_of_le`: below an admitted key only the lower bound counts.
-/

namespace OpenstackPlatform
namespace Library

/-- An end of an interval. -/
structure Bound (κ : Type) where
  key : κ
  inclusive : Bool
  deriving DecidableEq, Repr

/-- The keys between two bounds; a missing bound leaves its side open. -/
structure Span (κ : Type) where
  low : Option (Bound κ)
  high : Option (Bound κ)
  deriving DecidableEq, Repr

variable {κ : Type} [LinearOrder κ]

namespace Bound

/-- A key is on the upper side of a bound. -/
def isBelow (bound : Bound κ) (key : κ) : Bool :=
  decide (bound.key < key) || bound.inclusive && decide (key = bound.key)

/-- A key is on the lower side of a bound. -/
def isAbove (bound : Bound κ) (key : κ) : Bool :=
  decide (key < bound.key) || bound.inclusive && decide (key = bound.key)

theorem isBelow_iff {bound : Bound κ} {key : κ} : bound.isBelow key = true ↔
    bound.key < key ∨ bound.inclusive = true ∧ key = bound.key := by
  rw [isBelow, Bool.or_eq_true, Bool.and_eq_true, decide_eq_true_eq, decide_eq_true_eq]

theorem isAbove_iff {bound : Bound κ} {key : κ} : bound.isAbove key = true ↔
    key < bound.key ∨ bound.inclusive = true ∧ key = bound.key := by
  rw [isAbove, Bool.or_eq_true, Bool.and_eq_true, decide_eq_true_eq, decide_eq_true_eq]

theorem isBelow_inclusive {a b : κ} : (Bound.mk a true).isBelow b = true ↔ a ≤ b := by
  rw [isBelow_iff, le_iff_lt_or_eq]
  exact or_congr_right ⟨fun h => h.2.symm, fun h => ⟨rfl, h.symm⟩⟩

theorem isBelow_exclusive {a b : κ} : (Bound.mk a false).isBelow b = true ↔ a < b := by
  rw [isBelow_iff]
  exact or_iff_left fun h => Bool.false_ne_true h.1

theorem isAbove_inclusive {a b : κ} : (Bound.mk a true).isAbove b = true ↔ b ≤ a := by
  rw [isAbove_iff, le_iff_lt_or_eq]
  exact or_congr_right ⟨fun h => h.2, fun h => ⟨rfl, h⟩⟩

theorem isAbove_exclusive {a b : κ} : (Bound.mk a false).isAbove b = true ↔ b < a := by
  rw [isAbove_iff]
  exact or_iff_left fun h => Bool.false_ne_true h.1

/-- What is below a key on the lower side is on the lower side. -/
theorem isAbove_of_le {bound : Bound κ} {a b : κ} (hb : bound.isAbove b = true) (hle : a ≤ b) :
    bound.isAbove a = true := by
  rw [isAbove_iff] at hb ⊢
  obtain hlt | heq := hle.lt_or_eq
  · obtain hb | ⟨-, rfl⟩ := hb
    · exact .inl (hlt.trans hb)
    · exact .inl hlt
  · rwa [heq]

/-- The greater of two lower bounds; at one key an exclusive bound is the greater one. -/
def maxLow (a b : Bound κ) : Bound κ :=
  if a.key < b.key ∨ a.key = b.key ∧ a.inclusive = true ∧ b.inclusive = false then b else a

/-- The smaller of two upper bounds; at one key an exclusive bound is the smaller one. -/
def minHigh (a b : Bound κ) : Bound κ :=
  if b.key < a.key ∨ b.key = a.key ∧ b.inclusive = false ∧ a.inclusive = true then b else a

theorem isBelow_maxLow (a b : Bound κ) (key : κ) :
    (maxLow a b).isBelow key = (a.isBelow key && b.isBelow key) := by
  rw [Bool.eq_iff_iff, Bool.and_eq_true, isBelow_iff, isBelow_iff, isBelow_iff]
  by_cases h : a.key < b.key ∨ a.key = b.key ∧ a.inclusive = true ∧ b.inclusive = false
  · rw [maxLow, if_pos h]
    refine ⟨fun hb => ⟨?_, hb⟩, fun hab => hab.2⟩
    obtain hlt | ⟨heq, ha, hb'⟩ := h
    · obtain hb | ⟨-, rfl⟩ := hb
      · exact .inl (hlt.trans hb)
      · exact .inl hlt
    · obtain hb | ⟨hb, -⟩ := hb
      · exact .inl (heq ▸ hb)
      · rw [hb'] at hb
        cases hb
  · rw [maxLow, if_neg h]
    rw [not_or, not_lt] at h
    refine ⟨fun ha => ⟨ha, ?_⟩, fun hab => hab.1⟩
    obtain hlt | heq := h.1.lt_or_eq
    · obtain ha | ⟨-, rfl⟩ := ha
      · exact .inl (hlt.trans ha)
      · exact .inl hlt
    · obtain ha | ⟨ha, rfl⟩ := ha
      · exact .inl (heq ▸ ha)
      · by_cases hb : b.inclusive = true
        · exact .inr ⟨hb, heq.symm⟩
        · exact absurd ⟨heq.symm, ha, Bool.eq_false_iff.mpr hb⟩ h.2

theorem isAbove_minHigh (a b : Bound κ) (key : κ) :
    (minHigh a b).isAbove key = (a.isAbove key && b.isAbove key) := by
  rw [Bool.eq_iff_iff, Bool.and_eq_true, isAbove_iff, isAbove_iff, isAbove_iff]
  by_cases h : b.key < a.key ∨ b.key = a.key ∧ b.inclusive = false ∧ a.inclusive = true
  · rw [minHigh, if_pos h]
    refine ⟨fun hb => ⟨?_, hb⟩, fun hab => hab.2⟩
    obtain hlt | ⟨heq, hb', -⟩ := h
    · obtain hb | ⟨-, rfl⟩ := hb
      · exact .inl (hb.trans hlt)
      · exact .inl hlt
    · obtain hb | ⟨hb, -⟩ := hb
      · exact .inl (heq ▸ hb)
      · rw [hb'] at hb
        cases hb
  · rw [minHigh, if_neg h]
    rw [not_or, not_lt] at h
    refine ⟨fun ha => ⟨ha, ?_⟩, fun hab => hab.1⟩
    obtain hlt | heq := h.1.lt_or_eq
    · obtain ha | ⟨-, rfl⟩ := ha
      · exact .inl (ha.trans hlt)
      · exact .inl hlt
    · obtain ha | ⟨ha, rfl⟩ := ha
      · exact .inl (heq ▸ ha)
      · by_cases hb : b.inclusive = true
        · exact .inr ⟨hb, heq⟩
        · exact absurd ⟨heq.symm, Bool.eq_false_iff.mpr hb, ha⟩ h.2

end Bound

namespace Span

def admits (interval : Span κ) (key : κ) : Bool :=
  interval.low.all (·.isBelow key) && interval.high.all (·.isAbove key)

/-- The bound that both of two optional bounds make. -/
def merge (choose : Bound κ → Bound κ → Bound κ) : Option (Bound κ) → Option (Bound κ) →
    Option (Bound κ)
  | none, bound => bound
  | some bound, none => some bound
  | some a, some b => some (choose a b)

def intersect (a b : Span κ) : Span κ where
  low := merge Bound.maxLow a.low b.low
  high := merge Bound.minHigh a.high b.high

theorem admits_iff {interval : Span κ} {key : κ} : interval.admits key = true ↔
    interval.low.all (·.isBelow key) = true ∧ interval.high.all (·.isAbove key) = true := by
  rw [admits, Bool.and_eq_true]

omit [LinearOrder κ] in
theorem all_merge {choose : Bound κ → Bound κ → Bound κ} (side : Bound κ → Bool)
    (h : ∀ a b, side (choose a b) = (side a && side b)) (a b : Option (Bound κ)) :
    (merge choose a b).all side = (a.all side && b.all side) := by
  cases a with
  | none => rw [merge, Option.all_none, Bool.true_and]
  | some a =>
    cases b with
    | none => rw [merge, Option.all_none, Bool.and_true]
    | some b => rw [merge, Option.all_some, Option.all_some, Option.all_some, h]

/-- An intersection admits what both intervals admit. -/
theorem admits_intersect (a b : Span κ) (key : κ) :
    (a.intersect b).admits key = (a.admits key && b.admits key) := by
  have hlow := all_merge (·.isBelow key) (fun a b => Bound.isBelow_maxLow a b key) a.low b.low
  have hhigh := all_merge (·.isAbove key) (fun a b => Bound.isAbove_minHigh a b key) a.high b.high
  rw [admits, admits, admits, intersect, hlow, hhigh, Bool.and_assoc, Bool.and_assoc,
    Bool.and_left_comm (b.low.all _)]

/-- A key below an admitted one is admitted when it is above the lower bound. -/
theorem admits_of_le {interval : Span κ} {a b : κ} (hb : interval.admits b = true) (hle : a ≤ b)
    (hlow : interval.low.all (·.isBelow a) = true) : interval.admits a = true := by
  rw [admits_iff] at hb ⊢
  refine ⟨hlow, ?_⟩
  cases hhigh : interval.high with
  | none => rfl
  | some high =>
    rw [hhigh, Option.all_some] at hb
    exact Bound.isAbove_of_le hb.2 hle

end Span

end Library
end OpenstackPlatform
