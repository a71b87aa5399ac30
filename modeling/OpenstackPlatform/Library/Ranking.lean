import Mathlib.Data.List.Basic
import Mathlib.Data.List.Sort
import Mathlib.Data.Set.Card

/-!
# Sorted lists and ranks

What a stable sort does to a list that is in order already, and which elements are at the front of a
list that is sorted by a strict order.

* `pairwise_mergeSort_of_pairwise`: elements that the sort does not tell apart stay in order.
* `mem_take_iff`: an element is among the first ones when few elements are before it.
* `exists_first_cons`: the first element with a property, from the front of the list on.
* `encard_setOf_mem`: the number of elements with a property, as a set.
* `mem_take_insertionSort_or`: an element that is not among the first ones has none of them behind
  it.
-/

namespace OpenstackPlatform
namespace Library

variable {α : Type}

section StableSort

variable {le : α → α → Bool}

/-- A stable sort keeps the elements that it does not tell apart from a given one. -/
theorem filter_mergeSort (htrans : ∀ a b c, le a b = true → le b c = true → le a c = true)
    (htotal : ∀ a b, (le a b || le b a) = true) (l : List α) (a : α) :
    (l.mergeSort le).filter (fun x => le a x && le x a) = l.filter fun x => le a x && le x a := by
  have hpairwise : (l.filter fun x => le a x && le x a).Pairwise fun x y => le x y = true := by
    refine List.pairwise_of_forall_mem_list fun x hx y hy => ?_
    rw [List.mem_filter, Bool.and_eq_true] at hx hy
    exact htrans x a y hx.2.2 hy.2.1
  have hsublist := List.sublist_mergeSort htrans htotal hpairwise List.filter_sublist
  have hfilter := hsublist.filter fun x => le a x && le x a
  rw [List.filter_filter] at hfilter
  simp only [Bool.and_self] at hfilter
  refine (hfilter.eq_of_length ?_).symm
  exact ((List.mergeSort_perm l le).filter _).length_eq.symm

/-- Elements that a stable sort does not tell apart stay in the order they were in. -/
theorem pairwise_mergeSort_of_pairwise
    (htrans : ∀ a b c, le a b = true → le b c = true → le a c = true)
    (htotal : ∀ a b, (le a b || le b a) = true) {R : α → α → Prop} {l : List α}
    (h : l.Pairwise R) :
    (l.mergeSort le).Pairwise fun a b => le a b = true ∧ (le b a = true → R a b) := by
  rw [List.pairwise_iff_forall_sublist]
  intro a b hab
  have hle : le a b = true :=
    List.pairwise_iff_forall_sublist.mp (List.pairwise_mergeSort htrans htotal l) hab
  refine ⟨hle, fun hge => ?_⟩
  have haa : le a a = true := by
    have := htotal a a
    rwa [Bool.or_self] at this
  have hfilter := hab.filter fun x => le a x && le x a
  rw [filter_mergeSort htrans htotal, List.filter_cons_of_pos (by rw [haa]; rfl),
    List.filter_cons_of_pos (by rw [hle, hge]; rfl), List.filter_nil] at hfilter
  exact List.pairwise_iff_forall_sublist.mp h (hfilter.trans List.filter_sublist)

end StableSort

section Rank

variable {R : α → α → Prop}

/-- The first element of a sorted list with a property, told without the list: all that come before
it have another property. -/
theorem exists_first_cons (hirrefl : ∀ a, ¬ R a a) (hasymm : ∀ a b, R a b → ¬ R b a)
    {P Q : α → Prop} {a : α} {l : List α} (h : (a :: l).Pairwise R) :
    (∃ x ∈ a :: l, P x ∧ ∀ y ∈ a :: l, R y x → Q y) ↔
      P a ∨ Q a ∧ ∃ x ∈ l, P x ∧ ∀ y ∈ l, R y x → Q y := by
  rw [List.pairwise_cons] at h
  constructor
  · rintro ⟨x, hx, hP, hQ⟩
    obtain rfl | hx := List.mem_cons.mp hx
    · exact .inl hP
    · refine .inr ⟨hQ a List.mem_cons_self (h.1 x hx), x, hx, hP, fun y hy => ?_⟩
      exact hQ y (List.mem_cons_of_mem a hy)
  · rintro (hP | ⟨hQa, x, hx, hP, hQ⟩)
    · refine ⟨a, List.mem_cons_self, hP, fun y hy hya => ?_⟩
      obtain rfl | hy := List.mem_cons.mp hy
      · exact absurd hya (hirrefl y)
      · exact absurd hya (hasymm a y (h.1 y hy))
    · refine ⟨x, List.mem_cons_of_mem a hx, hP, fun y hy hyx => ?_⟩
      obtain rfl | hy := List.mem_cons.mp hy
      · exact hQa
      · exact hQ y hy hyx

variable [DecidableRel R]

/-- In a list sorted by a strict order, the first elements are those that few elements precede. -/
theorem mem_take_iff (hirrefl : ∀ a, ¬ R a a) (hasymm : ∀ a b, R a b → ¬ R b a) {l : List α}
    (h : l.Pairwise R) {x : α} (hx : x ∈ l) (k : ℕ) :
    x ∈ l.take k ↔ l.countP (fun y => R y x) < k := by
  induction l generalizing k with
  | nil => cases hx
  | cons a l ih =>
    rw [List.pairwise_cons] at h
    cases k with
    | zero => exact iff_of_false List.not_mem_nil (Nat.not_lt_zero _)
    | succ k =>
      rw [List.take_succ_cons, List.mem_cons]
      by_cases hxa : x = a
      · subst hxa
        refine iff_of_true (.inl rfl) ?_
        have hzero : (x :: l).countP (fun y => R y x) = 0 := by
          rw [List.countP_eq_zero]
          intro y hy
          rw [decide_eq_true_eq]
          obtain rfl | hy := List.mem_cons.mp hy
          · exact hirrefl y
          · exact hasymm x y (h.1 y hy)
        rw [hzero]
        exact Nat.succ_pos k
      · have hmem := List.mem_of_ne_of_mem hxa hx
        have hcount : (a :: l).countP (fun y => R y x) = l.countP (fun y => R y x) + 1 :=
          List.countP_cons_of_pos (decide_eq_true (h.1 x hmem))
        rw [or_iff_right hxa, ih h.2 hmem, hcount]
        omega

end Rank

/-- In a list without duplicates the elements with a property are counted once each. -/
theorem encard_setOf_mem {l : List α} (h : l.Nodup) (p : α → Bool) :
    {x | x ∈ l ∧ p x = true}.encard = l.countP p := by
  classical
  have hset : {x | x ∈ l ∧ p x = true} = ((l.filter p).toFinset : Set α) := by
    rw [List.coe_toFinset]
    exact Set.ext fun x => List.mem_filter.symm
  rw [hset, Set.encard_coe_eq_coe_finsetCard, List.toFinset_card_of_nodup (h.filter p),
    List.countP_eq_length_filter]

/-- The first of a sorted list have an element, unless they are as many as asked for and none of
them is behind it. -/
theorem mem_take_insertionSort_or {α : Type} (r : α → α → Prop) [DecidableRel r] [Std.Total r]
    [IsTrans α r] {l : List α} {a : α} (h : a ∈ l) {n : Nat} :
    a ∈ (l.insertionSort r).take n ∨
      (((l.insertionSort r).take n).length = n ∧ ∀ b ∈ (l.insertionSort r).take n, r b a) := by
  have hsorted := List.pairwise_insertionSort r l
  have hmem : a ∈ l.insertionSort r := (List.mem_insertionSort _).mpr h
  rw [← List.take_append_drop n (l.insertionSort r)] at hmem hsorted
  rcases List.mem_append.mp hmem with hpage | hrest
  · exact .inl hpage
  · refine .inr ⟨?_, fun b hb => (List.pairwise_append.mp hsorted).2.2 b hb a hrest⟩
    have hlength := List.length_pos_of_mem hrest
    rw [List.length_drop] at hlength
    rw [List.length_take]
    omega

end Library
end OpenstackPlatform
