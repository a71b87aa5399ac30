import Mathlib.Data.List.Basic
import Mathlib.Data.List.Induction
import Mathlib.Data.List.TakeWhile

/-!
# Lines cut into records

A stream is its ended lines and the rest after the last line end.  A line is cut into records of a
fixed length and a shorter one at its end; only an empty line has an empty record.

* `splitEnds`, with `splitEnds_append` and `splitEnds_append_end`: what a block adds to the lines.
* `fullRecords`, `lastRecord`: the cut of a line, with `fullRecords_append_lt` and
  `fullRecords_append_eq`: what a block adds to it.
* `lineRecords`, `flatten_lineRecords`, `length_of_mem_lineRecords`.
-/

namespace OpenstackPlatform
namespace Library

variable {α : Type}

/-! ## Lines -/

section Lines

variable [DecidableEq α]

/-- The ended lines of a stream, and the rest. -/
def splitEnds (mark : α) : List α → List (List α) × List α
  | [] => ([], [])
  | b :: s =>
    if b = mark then ([] :: (splitEnds mark s).1, (splitEnds mark s).2)
    else
      match (splitEnds mark s).1 with
      | [] => ([], b :: (splitEnds mark s).2)
      | line :: lines => ((b :: line) :: lines, (splitEnds mark s).2)

variable {mark : α}

/-- What stands before the first mark has none. -/
theorem notMem_take_of_le {s : List α} {n : ℕ} (h : n ≤ (s.takeWhile (· != mark)).length) :
    mark ∉ s.take n := by
  have hhead : s.take n <+: s.takeWhile (· != mark) := by
    refine List.prefix_of_prefix_length_le (List.take_prefix _ _) (List.takeWhile_prefix _) ?_
    rw [List.length_take]
    exact (Nat.min_le_left _ _).trans h
  intro hmem
  have hne := List.mem_takeWhile_imp (p := (· != mark)) (hhead.subset hmem)
  exact bne_iff_ne.mp hne rfl

/-- What one more item does: a mark ends the line, another item joins it. -/
theorem splitEnds_concat (s : List α) (b : α) :
    splitEnds mark (s ++ [b]) =
      if b = mark then ((splitEnds mark s).1 ++ [(splitEnds mark s).2], [])
      else ((splitEnds mark s).1, (splitEnds mark s).2 ++ [b]) := by
  induction s with
  | nil =>
    by_cases hb : b = mark
    · simp [splitEnds, hb]
    · simp [splitEnds, hb]
  | cons c s ih =>
    rw [List.cons_append, splitEnds, ih, splitEnds]
    by_cases hc : c = mark
    · rw [if_pos hc, if_pos hc]
      by_cases hb : b = mark
      · rw [if_pos hb, if_pos hb]
        rfl
      · rw [if_neg hb, if_neg hb]
    · rw [if_neg hc, if_neg hc]
      by_cases hb : b = mark
      · rw [if_pos hb, if_pos hb]
        cases (splitEnds mark s).1 with
        | nil => rfl
        | cons line lines => rfl
      · rw [if_neg hb, if_neg hb]
        cases (splitEnds mark s).1 with
        | nil => rfl
        | cons line lines => rfl

/-- A block without a mark joins the line that has not ended. -/
theorem splitEnds_append (s : List α) {w : List α} (h : mark ∉ w) :
    splitEnds mark (s ++ w) = ((splitEnds mark s).1, (splitEnds mark s).2 ++ w) := by
  induction w generalizing s with
  | nil => rw [List.append_nil, List.append_nil]
  | cons b w ih =>
    rw [List.mem_cons, not_or] at h
    rw [List.append_cons, ih (s ++ [b]) h.2, splitEnds_concat, if_neg (Ne.symm h.1),
      ← List.append_cons]

/-- A block and a mark end the line. -/
theorem splitEnds_append_end (s : List α) {w : List α} (h : mark ∉ w) :
    splitEnds mark (s ++ (w ++ [mark])) =
      ((splitEnds mark s).1 ++ [(splitEnds mark s).2 ++ w], []) := by
  rw [← List.append_assoc, splitEnds_concat, if_pos rfl, splitEnds_append s h]

/-- The lines and the rest are the stream without its marks. -/
theorem flatten_splitEnds (s : List α) :
    (splitEnds mark s).1.flatten ++ (splitEnds mark s).2 = s.filter (· ≠ mark) := by
  induction s with
  | nil => rfl
  | cons b s ih =>
    rw [splitEnds]
    by_cases hb : b = mark
    · rw [if_pos hb, List.filter_cons_of_neg (by simpa using hb), ← ih]
      rfl
    · rw [if_neg hb, List.filter_cons_of_pos (by simpa using hb), ← ih]
      cases (splitEnds mark s).1 with
      | nil => rfl
      | cons line lines => rfl

/-- The stream ends in the rest. -/
theorem splitEnds_suffix (s : List α) : (splitEnds mark s).2 <:+ s := by
  induction s using List.reverseRecOn with
  | nil => exact List.nil_suffix
  | append_singleton s b ih =>
    rw [splitEnds_concat]
    by_cases hb : b = mark
    · rw [if_pos hb]
      exact List.nil_suffix
    · rw [if_neg hb]
      obtain ⟨t, ht⟩ := ih
      exact ⟨t, by rw [← List.append_assoc, ht]⟩

end Lines

/-! ## Records of a line -/

/-- The records of the full length. -/
def fullRecords (n : Nat) (line : List α) : List (List α) :=
  (List.range (line.length / n)).map fun i => (line.drop (i * n)).take n

/-- The shorter record at the end, which may be empty. -/
def lastRecord (n : Nat) (line : List α) : List α := line.drop (line.length / n * n)

variable {n : Nat} {line w : List α}

@[simp] theorem fullRecords_nil (n : Nat) : fullRecords n ([] : List α) = [] := by
  rw [fullRecords, List.length_nil, Nat.zero_div]
  rfl

@[simp] theorem lastRecord_nil (n : Nat) : lastRecord n ([] : List α) = [] := by
  rw [lastRecord, List.drop_nil]

theorem length_lastRecord (n : Nat) (line : List α) :
    (lastRecord n line).length = line.length % n := by
  rw [lastRecord, List.length_drop, Nat.mod_eq_sub_div_mul]

theorem length_lastRecord_lt (hn : 0 < n) (line : List α) : (lastRecord n line).length < n := by
  rw [length_lastRecord]
  exact Nat.mod_lt _ hn

theorem length_of_mem_fullRecords {r : List α} (h : r ∈ fullRecords n line) : r.length ≤ n := by
  obtain ⟨i, -, rfl⟩ := List.mem_map.mp h
  rw [List.length_take]
  exact Nat.min_le_left _ _

/-- The records are the line, in order. -/
theorem flatten_fullRecords (n : Nat) (line : List α) :
    (fullRecords n line).flatten ++ lastRecord n line = line := by
  have hhead : ∀ k, k * n ≤ line.length →
      ((List.range k).map fun i => (line.drop (i * n)).take n).flatten = line.take (k * n) := by
    intro k hk
    induction k with
    | zero => simp
    | succ k ih =>
      rw [Nat.succ_mul] at hk
      rw [List.range_succ, List.map_append, List.flatten_append, ih (by omega), List.map_cons,
        List.map_nil, List.flatten_singleton, Nat.succ_mul, List.take_add]
  rw [fullRecords, lastRecord, hhead _ (Nat.div_mul_le_self _ _), List.take_append_drop]

theorem length_append_div (hn : 0 < n) :
    (line ++ w).length / n = line.length / n + (line.length % n + w.length) / n := by
  have hlength : (line ++ w).length =
      n * (line.length / n) + (line.length % n + w.length) := by
    rw [List.length_append, ← Nat.add_assoc, Nat.div_add_mod]
  rw [hlength, Nat.mul_add_div hn]

theorem take_drop_append {i : Nat} (hi : i < line.length / n) :
    ((line ++ w).drop (i * n)).take n = (line.drop (i * n)).take n := by
  have hle : (i + 1) * n ≤ line.length :=
    Nat.le_trans (Nat.mul_le_mul_right n hi) (Nat.div_mul_le_self _ _)
  rw [Nat.succ_mul] at hle
  rw [List.drop_append_of_le_length (by omega), List.take_append_of_le_length]
  rw [List.length_drop]
  omega

/-- A block that does not fill the last record joins it. -/
theorem fullRecords_append_lt (hn : 0 < n) (h : (lastRecord n line).length + w.length < n) :
    fullRecords n (line ++ w) = fullRecords n line ∧
      lastRecord n (line ++ w) = lastRecord n line ++ w := by
  rw [length_lastRecord] at h
  have hdiv : (line ++ w).length / n = line.length / n := by
    rw [length_append_div hn, Nat.div_eq_of_lt h, Nat.add_zero]
  constructor
  · rw [fullRecords, fullRecords, hdiv]
    refine List.map_congr_left fun i hi => take_drop_append (List.mem_range.mp hi)
  · rw [lastRecord, lastRecord, hdiv, List.drop_append_of_le_length (Nat.div_mul_le_self _ _)]

/-- A block that fills the last record makes a full one of it. -/
theorem fullRecords_append_eq (hn : 0 < n) (h : (lastRecord n line).length + w.length = n) :
    fullRecords n (line ++ w) = fullRecords n line ++ [lastRecord n line ++ w] ∧
      lastRecord n (line ++ w) = [] := by
  have hlast := h
  rw [length_lastRecord] at h
  have hdiv : (line ++ w).length / n = line.length / n + 1 := by
    rw [length_append_div hn, h, Nat.div_self hn]
  constructor
  · rw [fullRecords, fullRecords, hdiv, List.range_succ, List.map_append, List.map_singleton]
    congr 1
    · exact List.map_congr_left fun i hi => take_drop_append (List.mem_range.mp hi)
    · rw [List.drop_append_of_le_length (Nat.div_mul_le_self _ _), ← lastRecord,
        List.take_of_length_le]
      exact Nat.le_of_eq (by rw [List.length_append, hlast])
  · have hmod := Nat.div_add_mod line.length n
    rw [lastRecord, hdiv, List.drop_eq_nil_iff, List.length_append, Nat.succ_mul]
    rw [Nat.mul_comm] at hmod
    omega

/-- The records of an ended line; only an empty line has an empty one. -/
def lineRecords (n : Nat) (line : List α) : List (List α) :=
  fullRecords n line ++
    if lastRecord n line = [] ∧ fullRecords n line ≠ [] then [] else [lastRecord n line]

/-- The records of a line that ends after a block. -/
theorem lineRecords_append (hn : 0 < n) (h : (lastRecord n line).length + w.length ≤ n) :
    lineRecords n (line ++ w) =
      fullRecords n line ++
        if lastRecord n line ++ w = [] ∧ fullRecords n line ≠ [] then []
        else [lastRecord n line ++ w] := by
  rcases Nat.lt_or_eq_of_le h with h | h
  · obtain ⟨hfull, hlast⟩ := fullRecords_append_lt hn h
    rw [lineRecords, hfull, hlast]
  · obtain ⟨hfull, hlast⟩ := fullRecords_append_eq hn h
    have hne : lastRecord n line ++ w ≠ [] := by
      intro hnil
      have hlength := congrArg List.length hnil
      rw [List.length_append, h, List.length_nil] at hlength
      omega
    rw [lineRecords, hfull, hlast, if_pos ⟨rfl, by simp⟩, List.append_nil,
      if_neg fun hc => hne hc.1]

/-- The records of an ended line are the line. -/
theorem flatten_lineRecords (n : Nat) (line : List α) : (lineRecords n line).flatten = line := by
  have hflatten := flatten_fullRecords n line
  rw [lineRecords, List.flatten_append]
  split
  next h => rw [h.1, List.append_nil] at hflatten; rw [List.flatten_nil, List.append_nil, hflatten]
  next => rw [List.flatten_singleton, hflatten]

theorem length_of_mem_lineRecords (hn : 0 < n) {r : List α} (h : r ∈ lineRecords n line) :
    r.length ≤ n := by
  rcases List.mem_append.mp h with h | h
  · exact length_of_mem_fullRecords h
  · split at h
    · cases h
    · rw [List.mem_singleton.mp h]
      exact Nat.le_of_lt (length_lastRecord_lt hn line)

end Library
end OpenstackPlatform
