import Mathlib.Data.List.Basic

/-!
# Objects in a list

A list as a store of objects: an object is made at the end, and written where it stands.  What is
found after such a change is the new object, or what was found before.

* `getElem?_of_set`, `getElem?_set_same`, `getElem?_set_other`: an object is written.
* `getElem?_of_append`, `getElem?_append_of_some`: an object is made.
-/

namespace OpenstackPlatform
namespace Library

universe u

variable {α : Type u} {l : List α} {f g : ℕ} {a b x : α}

theorem getElem?_of_set (h : (l.set f a)[g]? = some x) :
    g = f ∧ x = a ∨ g ≠ f ∧ l[g]? = some x := by
  rw [List.getElem?_set] at h
  by_cases heq : f = g
  · rw [if_pos heq] at h
    split at h
    · exact .inl ⟨heq.symm, (Option.some.inj h).symm⟩
    · cases h
  · rw [if_neg heq] at h
    exact .inr ⟨fun he => heq he.symm, h⟩

theorem getElem?_set_same (h : l[f]? = some a) : (l.set f b)[f]? = some b :=
  List.getElem?_set_self (List.getElem?_eq_some_iff.mp h).1

theorem getElem?_set_other (h : g ≠ f) : (l.set f b)[g]? = l[g]? :=
  List.getElem?_set_ne fun he => h he.symm

theorem getElem?_of_append (h : (l ++ [a])[g]? = some x) :
    g = l.length ∧ x = a ∨ g < l.length ∧ l[g]? = some x := by
  rw [List.getElem?_append] at h
  by_cases hlt : g < l.length
  · rw [if_pos hlt] at h
    exact .inr ⟨hlt, h⟩
  · rw [if_neg hlt, List.getElem?_singleton] at h
    by_cases hzero : g - l.length = 0
    · rw [if_pos hzero] at h
      exact .inl ⟨by omega, (Option.some.inj h).symm⟩
    · rw [if_neg hzero] at h
      cases h

theorem getElem?_append_of_some (h : l[g]? = some x) : (l ++ [a])[g]? = some x :=
  (List.getElem?_append_left (List.getElem?_eq_some_iff.mp h).1).trans h

end Library
end OpenstackPlatform
