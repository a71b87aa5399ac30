import Mathlib.Data.List.Basic
import Mathlib.Data.List.Infix

/-!
# Texts of lines

A text is its lines with a line end after each.  A pattern is searched for at every position of a
text.  Two kinds of patterns can be searched line by line: those whose matches stay in one line, and
those whose first line is a fixed text.

* `joinLines`, `splitOn_joinLines`.
* `append_cons_inj`, `append_pair_inj`: a mark, or a doubled one, separates texts.
* `LineLocal`, `lineMatches`, `search_joinLines`: patterns that stay in one line.
* `StartsWith`, `search_of_notSuffix`, `search_startsWith`: patterns with a fixed first line.
* `suffix_quoted`, `not_suffix_of_last`: how a line may end.
* `noPair`: two neighbours that a text does not have.
-/

namespace OpenstackPlatform
namespace Library

/-- The characters of a literal.  The kernel reads them off the literal, where it would decode the
bytes of the string one after another. -/
theorem toList_of_eq_ofList {s : String} {l : List Char} (h : s = String.ofList l) :
    s.toList = l := by
  rw [h, String.toList_ofList]

/-- Lines with a line end after each. -/
def joinLines (ls : List (List Char)) : List Char := ls.flatMap fun l => l ++ ['\n']

@[simp] theorem joinLines_nil : joinLines [] = [] := rfl

@[simp] theorem joinLines_cons (l : List Char) (ls : List (List Char)) :
    joinLines (l :: ls) = l ++ '\n' :: joinLines ls := by
  rw [joinLines, List.flatMap_cons, List.append_assoc, List.singleton_append, joinLines]

theorem joinLines_append (ls ls' : List (List Char)) :
    joinLines (ls ++ ls') = joinLines ls ++ joinLines ls' := by
  rw [joinLines, List.flatMap_append, joinLines, joinLines]

/-- Lines are split back; an empty one follows the last line end. -/
theorem splitOn_joinLines : ∀ {ls : List (List Char)}, (∀ l ∈ ls, '\n' ∉ l) →
    (joinLines ls).splitOn '\n' = ls ++ [[]]
  | [], _ => rfl
  | l :: ls, h => by
    rw [joinLines_cons, List.splitOn_append_cons_self_of_not_mem (h l List.mem_cons_self),
      splitOn_joinLines fun l' hl' => h l' (List.mem_cons_of_mem _ hl')]
    rfl

/-- A separator that two texts lack separates them from what follows. -/
theorem append_cons_inj {α : Type} {d : α} : ∀ {x y a b : List α}, d ∉ x → d ∉ y →
    x ++ d :: a = y ++ d :: b → x = y ∧ a = b
  | [], [], _, _, _, _, h => ⟨rfl, (List.cons.inj h).2⟩
  | [], e :: y, _, _, _, hy, h => absurd ((List.cons.inj h).1 ▸ List.mem_cons_self) hy
  | c :: x, [], _, _, hx, _, h => absurd ((List.cons.inj h).1 ▸ List.mem_cons_self) hx
  | c :: x, e :: y, _, _, hx, hy, h => by
    rw [List.cons_append, List.cons_append] at h
    obtain ⟨rfl, htail⟩ := List.cons.inj h
    obtain ⟨rfl, hab⟩ := append_cons_inj (fun hm => hx (List.mem_cons_of_mem _ hm))
      (fun hm => hy (List.mem_cons_of_mem _ hm)) htail
    exact ⟨rfl, hab⟩

theorem of_append_pair {α : Type} {d : α} {x y a b : List α} (hpair : ¬ [d, d] <:+: y)
    (hlast : y.getLast? ≠ some d) {z : List α} (hy : y = x ++ z)
    (hz : d :: d :: a = z ++ d :: d :: b) : x = y ∧ a = b := by
  match z, hy, hz with
  | [], hy, hz =>
    rw [List.append_nil] at hy
    rw [List.nil_append, List.cons.injEq, List.cons.injEq] at hz
    exact ⟨hy.symm, hz.2.2⟩
  | [e], hy, hz =>
    -- the text would end in the mark
    rw [List.singleton_append, List.cons.injEq] at hz
    rw [hy, ← hz.1, List.getLast?_append_of_ne_nil _ (List.cons_ne_nil _ _)] at hlast
    exact absurd rfl hlast
  | e :: f :: z, hy, hz =>
    -- the text would hold the doubled mark
    rw [List.cons_append, List.cons_append, List.cons.injEq, List.cons.injEq] at hz
    refine absurd ⟨x, z, ?_⟩ hpair
    rw [hy, ← hz.1, ← hz.2.1, List.append_assoc]
    rfl

/-- A doubled mark separates two texts from what follows when neither holds it doubled nor ends
in it. -/
theorem append_pair_inj {α : Type} {d : α} {x y a b : List α} (hx : ¬ [d, d] <:+: x)
    (hxlast : x.getLast? ≠ some d) (hy : ¬ [d, d] <:+: y) (hylast : y.getLast? ≠ some d)
    (h : x ++ d :: d :: a = y ++ d :: d :: b) : x = y ∧ a = b := by
  rcases List.append_eq_append_iff.mp h with ⟨z, hz, htail⟩ | ⟨z, hz, htail⟩
  · exact of_append_pair hy hylast hz htail
  · obtain ⟨hxy, hab⟩ := of_append_pair hx hxlast hz htail
    exact ⟨hxy.symm, hab.symm⟩

/-! ## Searching -/

section Search

variable {α : Type}

/-- The matches that start in a line, and those that start after it. -/
theorem search_line (f : List Char → Option α) : ∀ (l r : List Char),
    (l ++ '\n' :: r).tails.filterMap f =
      (l.tails.filterMap fun s => f (s ++ '\n' :: r)) ++ r.tails.filterMap f
  | [], r => by
    rw [List.nil_append, List.tails_cons, List.filterMap_cons, show ([] : List Char).tails = [[]] from rfl,
      List.filterMap_cons, List.filterMap_nil, List.nil_append]
    cases f ('\n' :: r) <;> rfl
  | c :: l, r => by
    rw [List.cons_append, List.tails_cons, List.tails_cons, List.filterMap_cons,
      List.filterMap_cons, search_line f l r, List.cons_append]
    cases f (c :: (l ++ '\n' :: r)) <;> rfl

/-- A match does not depend on what follows its line. -/
def LineLocal (f : List Char → Option α) : Prop :=
  ∀ s r, '\n' ∉ s → f (s ++ '\n' :: r) = f (s ++ ['\n'])

/-- The matches in one line. -/
def lineMatches (f : List Char → Option α) (l : List Char) : List α :=
  l.tails.filterMap fun s => f (s ++ ['\n'])

theorem lineMatches_eq_nil {f : List Char → Option α} {l : List Char}
    (h : ∀ s, s <:+ l → f (s ++ ['\n']) = none) : lineMatches f l = [] :=
  List.filterMap_eq_nil_iff.mpr fun s hs => h s (List.mem_tails s l |>.mp hs)

/-- A pattern that stays in one line is searched for line by line. -/
theorem search_joinLines {f : List Char → Option α} (hlocal : LineLocal f) (hnil : f [] = none) :
    ∀ {ls : List (List Char)}, (∀ l ∈ ls, '\n' ∉ l) →
      (joinLines ls).tails.filterMap f = ls.flatMap (lineMatches f)
  | [], _ => by simp [hnil]
  | l :: ls, h => by
    have hl : '\n' ∉ l := h l List.mem_cons_self
    have hline : (l.tails.filterMap fun s => f (s ++ '\n' :: joinLines ls)) = lineMatches f l := by
      refine List.filterMap_congr fun s hs => hlocal s _ fun hn => hl ?_
      exact (List.mem_tails s l |>.mp hs).subset hn
    rw [joinLines_cons, search_line, hline, search_joinLines hlocal hnil fun l' hl' =>
      h l' (List.mem_cons_of_mem _ hl'), List.flatMap_cons]

/-- A match starts with a line of its own. -/
def StartsWith (first : List Char) (f : List Char → Option α) : Prop :=
  ∀ s r, '\n' ∉ s → s ≠ first → f (s ++ '\n' :: r) = none

/-- No match starts in lines that do not end as the first line of a match. -/
theorem search_of_notSuffix {first : List Char} {f : List Char → Option α}
    (hf : StartsWith first f) (t : List Char) : ∀ {ls : List (List Char)},
      (∀ l ∈ ls, '\n' ∉ l ∧ ¬ first <:+ l) →
        (joinLines ls ++ t).tails.filterMap f = t.tails.filterMap f
  | [], _ => rfl
  | l :: ls, h => by
    obtain ⟨hl, hfirst⟩ := h l List.mem_cons_self
    have hline : (l.tails.filterMap fun s => f (s ++ '\n' :: (joinLines ls ++ t))) = [] := by
      refine List.filterMap_eq_nil_iff.mpr fun s hs => ?_
      have hs := List.mem_tails s l |>.mp hs
      refine hf s _ (fun hn => hl (hs.subset hn)) ?_
      rintro rfl
      exact hfirst hs
    rw [joinLines_cons, List.append_assoc, List.cons_append, search_line, hline, List.nil_append,
      search_of_notSuffix hf t fun l' hl' => h l' (List.mem_cons_of_mem _ hl')]

/-- One match at most starts in the first line of a match. -/
theorem search_startsWith {first : List Char} {f : List Char → Option α}
    (hf : StartsWith first f) (hline : '\n' ∉ first) (r : List Char) :
    (first ++ '\n' :: r).tails.filterMap f =
      (f (first ++ '\n' :: r)).toList ++ r.tails.filterMap f := by
  have hshort : ∀ s, s <:+ first → s ≠ first → f (s ++ '\n' :: r) = none := fun s hs hne =>
    hf s r (fun hn => hline (hs.subset hn)) hne
  rw [search_line]
  congr 1
  cases first with
  | nil =>
    rw [show ([] : List Char).tails = [[]] from rfl, List.filterMap_cons, List.filterMap_nil]
    cases f ([] ++ '\n' :: r) <;> rfl
  | cons c l =>
    have hrest : (l.tails.filterMap fun s => f (s ++ '\n' :: r)) = [] := by
      refine List.filterMap_eq_nil_iff.mpr fun s hs => ?_
      have hs := List.mem_tails s l |>.mp hs
      refine hshort s (hs.trans (List.suffix_cons c l)) ?_
      rintro rfl
      have := hs.length_le
      rw [List.length_cons] at this
      omega
    rw [List.tails_cons, List.filterMap_cons, hrest]
    cases f (c :: l ++ '\n' :: r) <;> rfl

/-- One suffix of a text is a match. -/
theorem filterMap_tails_unique {g : List Char → Option α} {z : List Char} {a : α} :
    ∀ {l : List Char}, z <:+ l → g z = some a → (∀ s, s <:+ l → s ≠ z → g s = none) →
      l.tails.filterMap g = [a]
  | [], hz, ha, _ => by
    rw [List.suffix_nil.mp hz] at ha
    rw [show ([] : List Char).tails = [[]] from rfl, List.filterMap_cons, ha, List.filterMap_nil]
  | c :: l, hz, ha, h => by
    rw [List.tails_cons, List.filterMap_cons]
    by_cases he : c :: l = z
    · have hrest : l.tails.filterMap g = [] := by
        refine List.filterMap_eq_nil_iff.mpr fun s hs => ?_
        have hs := List.mem_tails s l |>.mp hs
        refine h s (hs.trans (List.suffix_cons c l)) ?_
        rintro rfl
        have := hs.length_le
        rw [← he, List.length_cons] at this
        omega
      rw [he, ha, hrest]
    · have hz' : z <:+ l := (List.suffix_cons_iff.mp hz).resolve_left fun hz => he hz.symm
      rw [h (c :: l) (List.suffix_refl _) he]
      exact filterMap_tails_unique hz' ha fun s hs => h s (hs.trans (List.suffix_cons c l))

end Search

/-! ## Ends of lines -/

/-- A text that ends in another one does not end in one that neither of them is the end of. -/
theorem not_suffix_of_end {k x b : List Char} (hb : ¬ b <:+ k) (hk : ¬ k <:+ b) :
    ¬ k <:+ x ++ b := fun h =>
  (List.suffix_or_suffix_of_suffix h (List.suffix_append x b)).elim hk hb

/-- A text ends in its last character. -/
theorem not_suffix_of_last {s l : List Char} (hne : s ≠ []) (h : s.getLast? ≠ l.getLast?) :
    ¬ s <:+ l := by
  rintro ⟨t, rfl⟩
  obtain ⟨c, hc⟩ : ∃ c, s.getLast? = some c := ⟨_, List.getLast?_eq_some_getLast hne⟩
  rw [List.getLast?_append, hc, Option.some_or] at h
  exact h rfl

/-- Two texts that end in a quoted text end in the same one. -/
theorem suffix_quoted {p q p' q' : List Char} (hq : '"' ∉ q) (hq' : '"' ∉ q')
    (h : (p' ++ '"' :: (q' ++ ['"'])) <:+ (p ++ '"' :: (q ++ ['"']))) : p' <:+ p ∧ q' = q := by
  obtain ⟨t, ht⟩ := h
  have hreverse := congrArg List.reverse ht
  simp only [List.reverse_append, List.reverse_cons, List.reverse_nil, List.nil_append,
    List.append_assoc, List.cons_append, List.cons.injEq, true_and] at hreverse
  obtain ⟨hqs, hps⟩ := append_cons_inj (by simpa using hq') (by simpa using hq) hreverse
  refine ⟨⟨t, ?_⟩, List.reverse_injective hqs⟩
  have := congrArg List.reverse hps
  simpa using this

/-! ## Neighbours -/

/-- No character of one kind stands before one of another. -/
@[grind =] def noPair (p q : Char → Bool) : List Char → Bool
  | [] => true
  | [_] => true
  | c :: d :: t => !(p c && q d) && noPair p q (d :: t)

theorem noPair_append {p q : Char → Bool} : ∀ {s t : List Char}, noPair p q s = true →
    noPair p q t = true → (∀ d ∈ t.head?, q d = false) → noPair p q (s ++ t) = true
  | [], t, _, ht, _ => ht
  | [c], [], _, _, _ => rfl
  | [c], d :: t, _, ht, hd => by
    rw [List.singleton_append, noPair, hd d rfl, Bool.and_false, ht]
    rfl
  | c :: d :: s, t, hs, ht, hd => by
    rw [noPair, Bool.and_eq_true] at hs
    have ih := noPair_append hs.2 ht hd
    rw [List.cons_append, List.cons_append, noPair, Bool.and_eq_true]
    exact ⟨hs.1, ih⟩

/-- A text without characters of the second kind. -/
theorem noPair_of_right {p q : Char → Bool} : ∀ {s : List Char}, (∀ c ∈ s, q c = false) →
    noPair p q s = true
  | [], _ => rfl
  | [_], _ => rfl
  | c :: d :: s, h => by
    rw [noPair, h d (List.mem_cons_of_mem _ List.mem_cons_self), Bool.and_false,
      noPair_of_right fun e he => h e (List.mem_cons_of_mem _ he)]
    rfl

/-- A text without characters of the first kind. -/
theorem noPair_of_left {p q : Char → Bool} : ∀ {s : List Char}, (∀ c ∈ s, p c = false) →
    noPair p q s = true
  | [], _ => rfl
  | [_], _ => rfl
  | c :: d :: s, h => by
    rw [noPair, h c List.mem_cons_self, Bool.false_and,
      noPair_of_left fun e he => h e (List.mem_cons_of_mem _ he)]
    rfl

/-- Two characters of a text that stand side by side. -/
theorem not_pair_of_noPair {p q : Char → Bool} {c d : Char} {t : List Char} :
    ∀ {s : List Char}, noPair p q (s ++ c :: d :: t) = true → (p c && q d) = false
  | [], h => by
    rw [List.nil_append, noPair, Bool.and_eq_true, Bool.not_eq_true'] at h
    exact h.1
  | [a], h => by
    rw [List.singleton_append, noPair, Bool.and_eq_true] at h
    exact not_pair_of_noPair (s := []) h.2
  | a :: b :: s, h => by
    rw [List.cons_append, List.cons_append, noPair, Bool.and_eq_true] at h
    exact not_pair_of_noPair (s := b :: s) h.2

end Library
end OpenstackPlatform
