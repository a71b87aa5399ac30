import Mathlib.Algebra.Order.Group.Defs
import Mathlib.Data.List.Sort

/-!
# Sliding windows

A limiter that keeps a queue of times, oldest first, and takes off the front what has left the
window: `recent`.  Times are read from a clock that does not go back, so a queue is sorted, and
taking off the front is the same as keeping what is in the window (`recent_eq_filter`).

`Bounded limit width times` says that no half-open window of a width contains more than `limit` of
the times.  `Bounded.append` is the rule for a limiter: an event is let in while fewer than `limit`
are recent.  The windows that it bounds lie anywhere, not only at the end.
-/

namespace OpenstackPlatform
namespace Library
namespace SlidingWindow

universe u

variable {τ : Type u} [AddCommGroup τ] [LinearOrder τ]

/-- What is left of a queue when the times that left the window are taken off its front. -/
def recent (width now : τ) (times : List τ) : List τ :=
  times.dropWhile fun t => decide (t ≤ now - width)

/-- The times in a half-open window. -/
def within (left width : τ) (times : List τ) : List τ :=
  times.filter fun t => decide (left ≤ t) && decide (t < left + width)

/-- No window contains more than `limit` of the times. -/
def Bounded (limit : ℕ) (width : τ) (times : List τ) : Prop :=
  ∀ left, (within left width times).length ≤ limit

theorem recent_eq_filter {width now : τ} : ∀ {times : List τ}, times.Pairwise (· ≤ ·) →
    recent width now times = times.filter fun t => decide (now - width < t)
  | [], _ => rfl
  | t :: times, h => by
    obtain ⟨hle, hsorted⟩ := List.pairwise_cons.mp h
    rw [recent, List.dropWhile_cons]
    split
    · rename_i hold
      have hdrop : ¬now - width < t := not_lt.mpr (of_decide_eq_true hold)
      rw [List.filter_cons_of_neg (by simpa using hdrop)]
      exact recent_eq_filter hsorted
    · rename_i hnew
      have hkeep : now - width < t := not_le.mp (of_decide_eq_false (Bool.eq_false_iff.mpr hnew))
      have hall : ∀ s ∈ t :: times, decide (now - width < s) = true := by
        intro s hs
        obtain rfl | hs := List.mem_cons.mp hs
        · exact decide_eq_true hkeep
        · exact decide_eq_true (lt_of_lt_of_le hkeep (hle s hs))
      rw [List.filter_eq_self.mpr hall]

theorem recent_sublist (width now : τ) (times : List τ) : (recent width now times).Sublist times :=
  List.dropWhile_sublist _

variable {width now : τ} {times : List τ}

theorem pairwise_recent (h : times.Pairwise (· ≤ ·)) : (recent width now times).Pairwise (· ≤ ·) :=
  h.sublist (recent_sublist width now times)

omit [AddCommGroup τ] in
theorem sorted_append (h : times.Pairwise (· ≤ ·)) (hle : ∀ t ∈ times, t ≤ now) :
    (times ++ [now]).Pairwise (· ≤ ·) := by
  refine List.pairwise_append.mpr ⟨h, List.pairwise_singleton _ _, fun t ht s hs => ?_⟩
  rw [List.mem_singleton.mp hs]
  exact hle t ht

theorem recent_append {times' : List τ} (h : (times ++ times').Pairwise (· ≤ ·)) :
    recent width now (times ++ times') = recent width now times ++ recent width now times' := by
  rw [recent_eq_filter h, recent_eq_filter (h.sublist (List.sublist_append_left times times')),
    recent_eq_filter (h.sublist (List.sublist_append_right times times')), List.filter_append]

theorem bounded_nil (limit : ℕ) (width : τ) : Bounded limit width [] := fun _ => Nat.zero_le _

/-! ## Queues that stand for all times -/

/-- From a time on, a queue answers for all times of a history. -/
structure Tracks (width now : τ) (queue times : List τ) : Prop where
  sublist : queue.Sublist times
  recent_eq : ∀ now', now ≤ now' → recent width now' queue = recent width now' times

theorem tracks_nil (width now : τ) : Tracks width now [] [] := ⟨.refl _, fun _ _ => rfl⟩

theorem Tracks.mono {now' : τ} {queue : List τ} (h : Tracks width now queue times)
    (hle : now ≤ now') : Tracks width now' queue times :=
  ⟨h.sublist, fun later hlater => h.recent_eq later (le_trans hle hlater)⟩

/-- The next time is written to both. -/
theorem Tracks.append {queue : List τ} (h : Tracks width now queue times)
    (hsorted : (times ++ [now]).Pairwise (· ≤ ·)) :
    Tracks width now (queue ++ [now]) (times ++ [now]) := by
  have hsublist : (queue ++ [now]).Sublist (times ++ [now]) := h.sublist.append (.refl _)
  refine ⟨hsublist, fun later hlater => ?_⟩
  rw [recent_append (hsorted.sublist hsublist), recent_append hsorted, h.recent_eq later hlater]

variable [IsOrderedAddMonoid τ]

/-- What was taken off earlier does not matter later. -/
theorem recent_recent {now' : τ} (h : times.Pairwise (· ≤ ·)) (hle : now ≤ now') :
    recent width now' (recent width now times) = recent width now' times := by
  rw [recent_eq_filter (pairwise_recent h), recent_eq_filter h, recent_eq_filter h,
    List.filter_filter]
  refine List.filter_congr fun t _ => ?_
  by_cases hnew : now' - width < t
  · have hold : now - width < t := lt_of_le_of_lt (sub_le_sub_right hle width) hnew
    rw [decide_eq_true hnew, decide_eq_true hold]
    rfl
  · rw [decide_eq_false hnew]
    rfl

/-- What left the window may be taken off. -/
theorem Tracks.recent {queue : List τ} (h : Tracks width now queue times)
    (hsorted : times.Pairwise (· ≤ ·)) :
    Tracks width now (SlidingWindow.recent width now queue) times := by
  refine ⟨(recent_sublist _ _ _).trans h.sublist, fun later hlater => ?_⟩
  rw [recent_recent (hsorted.sublist h.sublist) hlater]
  exact h.recent_eq later hlater

/-! ## Windows anywhere -/

/-- A window that contains a new time contains, of the times before it, only recent ones. -/
theorem within_length_le {width now left : τ} {times : List τ} (h : times.Pairwise (· ≤ ·))
    (hleft : now < left + width) :
    (within left width times).length ≤ (recent width now times).length := by
  rw [recent_eq_filter h, within]
  have hold : now - width < left := sub_lt_iff_lt_add.mpr hleft
  refine (List.monotone_filter_right times fun t ht => ?_).length_le
  have hle : left ≤ t := of_decide_eq_true (Bool.and_eq_true_iff.mp ht).1
  exact decide_eq_true (lt_of_lt_of_le hold hle)

/-- **The rule for a limiter.**  An event that is let in while fewer than `limit` are recent keeps
every window bounded. -/
theorem Bounded.append {limit : ℕ} (h : Bounded limit width times)
    (hsorted : times.Pairwise (· ≤ ·)) (hrecent : (recent width now times).length < limit) :
    Bounded limit width (times ++ [now]) := by
  intro left
  rw [within, List.filter_append, List.length_append]
  by_cases hin : left ≤ now ∧ now < left + width
  · have hbefore := @within_length_le _ _ _ _ _ _ left _ hsorted hin.2
    have hone : (List.filter (fun t => decide (left ≤ t) && decide (t < left + width))
        [now]).length ≤ 1 := List.length_filter_le _ _
    rw [within] at hbefore
    omega
  · have hnone : List.filter (fun t => decide (left ≤ t) && decide (t < left + width)) [now] = [] := by
      rw [List.filter_cons_of_neg, List.filter_nil]
      simpa using hin
    rw [hnone, List.length_nil, Nat.add_zero]
    exact h left

end SlidingWindow
end Library
end OpenstackPlatform
