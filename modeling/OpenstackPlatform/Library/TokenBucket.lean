import Mathlib.Algebra.Order.Field.Basic
import Mathlib.Data.List.Basic
import Mathlib.Tactic.Linarith
import Mathlib.Tactic.Ring

/-!
# Token buckets

A bucket that starts full with `burst` tokens, gains `rate` tokens a second up to `burst`, and loses
one with every event.  `level` is what it has at a time, told from the times of the events alone,
newest first.  A limiter that lets an event in only while there is a whole token makes the times
`Conforming`.

* `level_le`, `level_nonneg`: the tokens are between none and `burst`.
* `level_later`, `level_event`: what time and what an event does to them.
* `length_within_le`: in any interval there are at most `burst + rate * length` events.
-/

namespace OpenstackPlatform
namespace Library
namespace TokenBucket

variable {K : Type} [Field K] [LinearOrder K] [IsStrictOrderedRing K]

/-- The tokens of a bucket at a time, after events at some times, newest first. -/
def level (burst rate : K) : List K → K → K
  | [], _ => burst
  | t :: ts, now => min burst (level burst rate ts t - 1 + rate * (now - t))

/-- There was a whole token at every event. -/
def Conforming (burst rate : K) : List K → Prop
  | [] => True
  | t :: ts => 1 ≤ level burst rate ts t ∧ Conforming burst rate ts

variable {burst rate : K}

omit [IsStrictOrderedRing K] in
theorem level_le (ts : List K) (now : K) : level burst rate ts now ≤ burst := by
  cases ts with
  | nil => exact le_refl burst
  | cons t ts => exact min_le_left _ _

theorem level_nonneg (hburst : 0 ≤ burst) (hrate : 0 ≤ rate) {ts : List K} {now : K}
    (hconforming : Conforming burst rate ts) (hle : ∀ t ∈ ts, t ≤ now) :
    0 ≤ level burst rate ts now := by
  cases ts with
  | nil => exact hburst
  | cons t ts =>
    have hnow : 0 ≤ rate * (now - t) :=
      mul_nonneg hrate (sub_nonneg.mpr (hle t List.mem_cons_self))
    exact le_min hburst (by linarith [hconforming.1])

/-- A bucket gains tokens until it is full. -/
theorem level_later (ts : List K) (hrate : 0 ≤ rate) {now later : K} (hle : now ≤ later) :
    level burst rate ts later = min burst (level burst rate ts now + rate * (later - now)) := by
  have hgain : 0 ≤ rate * (later - now) := mul_nonneg hrate (sub_nonneg.mpr hle)
  cases ts with
  | nil => exact (min_eq_left (le_add_of_nonneg_right hgain)).symm
  | cons t ts =>
    show min burst (level burst rate ts t - 1 + rate * (later - t)) =
      min burst (min burst (level burst rate ts t - 1 + rate * (now - t)) + rate * (later - now))
    have hsum : level burst rate ts t - 1 + rate * (later - t) =
        level burst rate ts t - 1 + rate * (now - t) + rate * (later - now) := by
      ring
    rw [min_add, ← min_assoc, min_eq_left (le_add_of_nonneg_right hgain), hsum]

/-- An event takes one token. -/
theorem level_event (ts : List K) (now : K) :
    level burst rate (now :: ts) now = level burst rate ts now - 1 := by
  have hle : level burst rate ts now - 1 ≤ burst := by
    linarith [@level_le K _ _ burst rate ts now]
  show min burst (level burst rate ts now - 1 + rate * (now - now)) = _
  rw [sub_self, mul_zero, add_zero, min_eq_right hle]

/-- The events from a time on, and what is left in the bucket, are at most what it could give. -/
theorem length_since_add_level_le (hrate : 0 ≤ rate) {ts : List K} {left now : K}
    (hsorted : ts.Pairwise (· ≥ ·)) (hle : ∀ t ∈ ts, t ≤ now) (hleft : left ≤ now) :
    ((ts.filter fun t => decide (left ≤ t)).length : K) + level burst rate ts now ≤
      burst + rate * (now - left) := by
  induction ts generalizing now with
  | nil =>
    have hgain : 0 ≤ rate * (now - left) := mul_nonneg hrate (sub_nonneg.mpr hleft)
    simp only [List.filter_nil, List.length_nil, Nat.cast_zero, zero_add]
    exact le_add_of_nonneg_right hgain
  | cons t ts ih =>
    have hgain : 0 ≤ rate * (now - left) := mul_nonneg hrate (sub_nonneg.mpr hleft)
    obtain ⟨htail, hsorted⟩ := List.pairwise_cons.mp hsorted
    by_cases hin : left ≤ t
    · rw [List.filter_cons_of_pos (by simpa using hin), List.length_cons, Nat.cast_succ]
      have hbefore := ih hsorted htail hin
      have hlevel : level burst rate (t :: ts) now ≤ level burst rate ts t - 1 + rate * (now - t) :=
        min_le_right _ _
      have hsplit : rate * (now - left) = rate * (t - left) + rate * (now - t) := by ring
      linarith
    · -- Every event is before the interval.
      have hnone : (t :: ts).filter (fun t => decide (left ≤ t)) = [] := by
        refine List.filter_eq_nil_iff.mpr fun s hs => ?_
        rw [decide_eq_true_eq]
        obtain rfl | hs := List.mem_cons.mp hs
        · exact hin
        · exact fun hle => hin (hle.trans (htail s hs))
      rw [hnone, List.length_nil, Nat.cast_zero, zero_add]
      exact (level_le _ _).trans (le_add_of_nonneg_right hgain)

/-- The bound on a closed interval. -/
theorem length_within_le (hburst : 0 ≤ burst) (hrate : 0 ≤ rate) {ts : List K}
    (hsorted : ts.Pairwise (· ≥ ·)) (hconforming : Conforming burst rate ts) {left right : K}
    (hle : left ≤ right) :
    ((ts.filter fun t => decide (left ≤ t ∧ t ≤ right)).length : K) ≤
      burst + rate * (right - left) := by
  induction ts with
  | nil =>
    have hgain : 0 ≤ rate * (right - left) := mul_nonneg hrate (sub_nonneg.mpr hle)
    rw [List.filter_nil, List.length_nil, Nat.cast_zero]
    exact add_nonneg hburst hgain
  | cons t ts ih =>
    by_cases hright : t ≤ right
    · -- All events are at most `right` from here on.
      have hall : ∀ s ∈ t :: ts, s ≤ right := by
        intro s hs
        obtain rfl | hs := List.mem_cons.mp hs
        · exact hright
        · exact le_trans ((List.pairwise_cons.mp hsorted).1 s hs) hright
      have hfilter : (t :: ts).filter (fun s => decide (left ≤ s ∧ s ≤ right)) =
          (t :: ts).filter fun s => decide (left ≤ s) :=
        List.filter_congr fun s hs => decide_eq_decide.mpr (and_iff_left (hall s hs))
      have hsum := @length_since_add_level_le K _ _ _ burst rate hrate (t :: ts) left right hsorted hall hle
      have hlevel := level_nonneg hburst hrate hconforming hall
      rw [hfilter]
      linarith
    · have hfilter : (t :: ts).filter (fun s => decide (left ≤ s ∧ s ≤ right)) =
          ts.filter fun s => decide (left ≤ s ∧ s ≤ right) :=
        List.filter_cons_of_neg (by simp [hright])
      rw [hfilter]
      exact ih (List.pairwise_cons.mp hsorted).2 hconforming.2

end TokenBucket
end Library
end OpenstackPlatform
