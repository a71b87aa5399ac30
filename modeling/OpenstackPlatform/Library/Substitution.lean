import OpenstackPlatform.Library.Lines

/-!
# Replacing the matches of a pattern

A pattern is tried at every position of a text, from left to right; what it matches is replaced, and
the search goes on after the match.  A change of a text that lies outside of what the matches of
another pattern can reach leaves these as they are.

* `subn`: all matches replaced, and how many there were; `NoMatch`, `subn_of_noMatch`, `subn_match`.
* `IsPattern`, `IsPattern.sealed`: what a pattern matches does not depend on what follows a text that
  no match goes across.
* `search_congr`, `search_of_none`, `suffix_unique`: comparing the matches of two texts.
* `Unpaired`, `not_infix_of_noPair`, `pair_in_quoted`: where two neighbours can stand.
-/

namespace OpenstackPlatform
namespace Library

/-! ## Replacing -/

section Replacing

variable {pattern : Option Char → List Char → Option Nat} {replace : List Char → List Char}

/-- `re.subn`.  A pattern is given the character before a position and the text from there on, and
returns the length of its match; the first `skip` characters belong to a match that was replaced. -/
@[grind =] def subn (pattern : Option Char → List Char → Option Nat) (replace : List Char → List Char) :
    (skip : Nat) → Option Char → List Char → List Char × Nat
  | _, _, [] => ([], 0)
  | skip + 1, _, c :: text => subn pattern replace skip (some c) text
  | 0, previous, c :: text =>
    match pattern previous (c :: text) with
    | some (n + 1) =>
      let rest := subn pattern replace n (some c) text
      (replace ((c :: text).take (n + 1)) ++ rest.1, rest.2 + 1)
    | _ =>
      let rest := subn pattern replace 0 (some c) text
      (c :: rest.1, rest.2)

/-- The character before what follows a text. -/
def lastChar (previous : Option Char) : List Char → Option Char
  | [] => previous
  | c :: a => lastChar (some c) a

@[simp] theorem lastChar_nil (previous : Option Char) : lastChar previous [] = previous := rfl

@[simp] theorem lastChar_cons (previous : Option Char) (c : Char) (a : List Char) :
    lastChar previous (c :: a) = lastChar (some c) a := rfl

@[simp] theorem lastChar_append (b : List Char) : ∀ (previous : Option Char) (a : List Char),
    lastChar previous (a ++ b) = lastChar (lastChar previous a) b
  | _, [] => rfl
  | _, c :: a => lastChar_append b (some c) a

/-- No match starts in a text that something follows. -/
def NoMatch (pattern : Option Char → List Char → Option Nat) :
    Option Char → (text rest : List Char) → Prop
  | _, [], _ => True
  | previous, c :: text, rest =>
    pattern previous (c :: (text ++ rest)) = none ∧ NoMatch pattern (some c) text rest

instance decidableNoMatch (pattern : Option Char → List Char → Option Nat) :
    ∀ (previous : Option Char) (text rest : List Char),
      Decidable (NoMatch pattern previous text rest)
  | _, [], _ => .isTrue trivial
  | _, c :: text, rest =>
    haveI := decidableNoMatch pattern (some c) text rest
    inferInstanceAs (Decidable (_ ∧ _))

/-- A text in which no match starts stays as it is. -/
theorem subn_of_noMatch {r : List Char} : ∀ {a : List Char} {previous : Option Char},
    NoMatch pattern previous a r →
      subn pattern replace 0 previous (a ++ r) =
        (a ++ (subn pattern replace 0 (lastChar previous a) r).1,
          (subn pattern replace 0 (lastChar previous a) r).2)
  | [], _, _ => rfl
  | c :: a, previous, h => by
    obtain ⟨hnone, hrest⟩ := h
    rw [List.cons_append, subn, hnone]
    simp only [subn_of_noMatch hrest, lastChar_cons, List.cons_append]

theorem subn_of_noMatch_all {a : List Char} {previous : Option Char}
    (h : NoMatch pattern previous a []) : subn pattern replace 0 previous a = (a, 0) := by
  have hall := @subn_of_noMatch pattern replace [] a previous h
  rw [List.append_nil] at hall
  rw [hall, subn, List.append_nil]

/-- What belongs to a match is passed. -/
theorem subn_skip {r : List Char} : ∀ {m : List Char} {previous : Option Char},
    subn pattern replace m.length previous (m ++ r) =
      subn pattern replace 0 (lastChar previous m) r
  | [], _ => rfl
  | c :: m, previous => by
    rw [List.length_cons, List.cons_append, subn, subn_skip, lastChar_cons]

/-- A match at the start of a text is replaced. -/
theorem subn_match {m r : List Char} {previous : Option Char} (hne : m ≠ [])
    (h : pattern previous (m ++ r) = some m.length) :
    subn pattern replace 0 previous (m ++ r) =
      (replace m ++ (subn pattern replace 0 (lastChar previous m) r).1,
        (subn pattern replace 0 (lastChar previous m) r).2 + 1) := by
  cases m with
  | nil => exact absurd rfl hne
  | cons c m =>
    rw [List.length_cons, List.cons_append] at h
    have htake : (c :: (m ++ r)).take (m.length + 1) = c :: m := by
      rw [List.take_succ_cons, List.take_left]
    rw [List.cons_append, subn, h]
    simp only [htake, subn_skip, lastChar_cons]

end Replacing

/-! ## Patterns -/

section Patterns

variable {α : Type}

/-- A pattern matches the texts of a language at the start of a text, whatever follows. -/
def IsPattern (f : List Char → Option α) (M : List Char → α → Prop) : Prop :=
  ∀ t a, f t = some a ↔ ∃ m r, M m a ∧ t = m ++ r

/-- What is found at the start of a text does not depend on what follows, when no match begins with
the whole text. -/
theorem IsPattern.sealed {f : List Char → Option α} {M : List Char → α → Prop}
    (h : IsPattern f M) {s : List Char} (hs : ∀ m a, M m a → ¬ s <+: m) (r r' : List Char) :
    f (s ++ r) = f (s ++ r') := by
  have hleft : ∀ {r r' : List Char} {a : α}, f (s ++ r) = some a → f (s ++ r') = some a := by
    intro r r' a ha
    obtain ⟨m, u, hm, heq⟩ := (h _ _).mp ha
    have hprefix : m <+: s := by
      have hm' : m <+: s ++ r := ⟨u, heq.symm⟩
      refine (List.prefix_or_prefix_of_prefix hm' (List.prefix_append s r)).resolve_right ?_
      exact hs m a hm
    obtain ⟨v, rfl⟩ := hprefix
    exact (h _ _).mpr ⟨m, v ++ r', hm, List.append_assoc m v r'⟩
  ext a
  exact ⟨hleft, hleft⟩

/-- Two texts with a common start have the same matches when those that begin in it are the same. -/
theorem search_congr {f : List Char → Option α} {r r' : List Char} : ∀ {a : List Char},
    (∀ s, s ≠ [] → s <:+ a → f (s ++ r) = f (s ++ r')) →
      r.tails.filterMap f = r'.tails.filterMap f →
        (a ++ r).tails.filterMap f = (a ++ r').tails.filterMap f
  | [], _, h => h
  | c :: a, hstart, h => by
    have hfirst := hstart (c :: a) (List.cons_ne_nil c a) (List.suffix_refl _)
    have hrest := search_congr (a := a)
      (fun s hne hs => hstart s hne (hs.trans (List.suffix_cons c a))) h
    rw [List.cons_append] at hfirst
    rw [List.cons_append, List.cons_append, List.tails_cons, List.tails_cons, List.filterMap_cons,
      List.filterMap_cons, hrest]
    rw [List.cons_append] at hfirst
    rw [hfirst]

/-- A text in which no match begins. -/
theorem search_of_none {f : List Char → Option α} {r : List Char} : ∀ {a : List Char},
    (∀ s, s ≠ [] → s <:+ a → f (s ++ r) = none) →
      (a ++ r).tails.filterMap f = r.tails.filterMap f
  | [], _ => rfl
  | c :: a, h => by
    have hfirst := h (c :: a) (List.cons_ne_nil c a) (List.suffix_refl _)
    rw [List.cons_append] at hfirst
    rw [List.cons_append, List.tails_cons, List.filterMap_cons, hfirst,
      search_of_none fun s hne hs => h s hne (hs.trans (List.suffix_cons c a))]

/-- One match stands in one place. -/
theorem suffix_unique {f : List Char → Option α} {a b c : α} {x y : List Char} :
    ∀ {t : List Char}, t.tails.filterMap f = [a] → x <:+ t → y <:+ t → f x = some b →
      f y = some c → x = y
  | [], _, hx, hy, _, _ => by rw [List.suffix_nil.mp hx, List.suffix_nil.mp hy]
  | d :: t, h, hx, hy, hfx, hfy => by
    have hother : ∀ {z : List Char} {e : α}, z <:+ t → f z = some e → f (d :: t) = none := by
      intro z e hz he
      by_contra hsome
      obtain ⟨k, hk⟩ := Option.ne_none_iff_exists'.mp hsome
      have hmem : e ∈ t.tails.filterMap f :=
        List.mem_filterMap.mpr ⟨z, (List.mem_tails z t).mpr hz, he⟩
      rw [List.tails_cons, List.filterMap_cons, hk] at h
      rw [(List.cons.inj h).2] at hmem
      exact List.not_mem_nil hmem
    obtain rfl | hx := List.suffix_cons_iff.mp hx
    · obtain rfl | hy := List.suffix_cons_iff.mp hy
      · rfl
      · rw [hother hy hfy] at hfx
        cases hfx
    · have hnone := hother hx hfx
      obtain rfl | hy := List.suffix_cons_iff.mp hy
      · rw [hnone] at hfy
        cases hfy
      · rw [List.tails_cons, List.filterMap_cons, hnone] at h
        exact suffix_unique h hx hy hfx hfy

end Patterns

/-! ## Neighbours -/

variable {p q : Char → Bool}

/-- A text that has two neighbours is not a part of one that does not have them. -/
theorem not_infix_of_noPair {c d : Char} {a b m : List Char} (hm : noPair p q m = true)
    (hc : p c = true) (hd : q d = true) : ¬ (a ++ c :: d :: b) <:+: m := by
  rintro ⟨x, y, rfl⟩
  have hsplit : x ++ (a ++ c :: d :: b) ++ y = (x ++ a) ++ c :: d :: (b ++ y) := by simp
  rw [hsplit] at hm
  have := not_pair_of_noPair hm
  rw [hc, hd] at this
  cases this

/-- Two neighbours that a text has nowhere but between two quotes stand between these. -/
theorem pair_in_quoted {c d e : Char} {a t x v y : List Char} (hx : noPair p q x = true)
    (hy : noPair p q y = true) (hpe : p e = false) (hqe : q e = false) (hc : p c = true)
    (hd : q d = true) (h : a ++ c :: d :: t = x ++ e :: (v ++ e :: y)) :
    ∃ b w, v = b ++ c :: d :: w ∧ t = w ++ e :: y := by
  have hce : c ≠ e := fun he => by rw [he, hpe] at hc; cases hc
  have hde : d ≠ e := fun he => by rw [he, hqe] at hd; cases hd
  obtain ⟨b, rfl, hb⟩ | ⟨b, rfl, hb⟩ := List.append_eq_append_iff.mp h
  · -- the pair begins before the first quote
    cases b with
    | nil => exact absurd (List.cons.inj hb).1 hce
    | cons c' b =>
      obtain ⟨rfl, hrest⟩ := List.cons.inj hb
      cases b with
      | nil => exact absurd (List.cons.inj hrest).1 hde
      | cons d' b =>
        obtain ⟨rfl, -⟩ := List.cons.inj hrest
        have := not_pair_of_noPair hx
        rw [hc, hd] at this
        cases this
  · cases b with
    | nil => exact absurd (List.cons.inj hb).1.symm hce
    | cons e' b =>
      obtain ⟨rfl, hrest⟩ := List.cons.inj hb
      obtain ⟨w, rfl, hw⟩ | ⟨w, rfl, hw⟩ := List.append_eq_append_iff.mp hrest.symm
      · -- the pair begins between the quotes
        cases w with
        | nil => exact absurd (List.cons.inj hw).1 hce
        | cons c' w =>
          obtain ⟨rfl, hrest'⟩ := List.cons.inj hw
          cases w with
          | nil => exact absurd (List.cons.inj hrest').1 hde
          | cons d' w =>
            obtain ⟨rfl, ht⟩ := List.cons.inj hrest'
            exact ⟨b, w, rfl, ht⟩
      · cases w with
        | nil => exact absurd (List.cons.inj hw).1.symm hce
        | cons e' w =>
          obtain ⟨-, rfl⟩ := List.cons.inj hw
          have := not_pair_of_noPair hy
          rw [hc, hd] at this
          cases this

/-- No two neighbours of two kinds, also when something is put before. -/
def Unpaired (p q : Char → Bool) (t : List Char) : Prop :=
  noPair p q t = true ∧ ∀ d ∈ t.head?, q d = false

theorem Unpaired.append {s t : List Char} (hs : Unpaired p q s) (ht : Unpaired p q t) :
    Unpaired p q (s ++ t) := by
  refine ⟨noPair_append hs.1 ht.1 ht.2, fun d hd => ?_⟩
  cases s with
  | nil => exact ht.2 d hd
  | cons c s => exact hs.2 d hd

theorem unpaired_nil (p q : Char → Bool) : Unpaired p q [] := ⟨rfl, fun d hd => by cases hd⟩

theorem unpaired_of_right {s : List Char} (h : ∀ c ∈ s, q c = false) :
    Unpaired p q s := ⟨noPair_of_right h, fun d hd => h d (List.mem_of_mem_head? hd)⟩

theorem unpaired_of_left {s : List Char} (h : ∀ c ∈ s, p c = false)
    (hhead : ∀ d ∈ s.head?, q d = false) : Unpaired p q s := ⟨noPair_of_left h, hhead⟩

theorem noPair_suffix {p q : Char → Bool} {t : List Char} : ∀ {s : List Char},
    noPair p q (s ++ t) = true → noPair p q t = true
  | [], h => h
  | [c], h => by
    cases t with
    | nil => rfl
    | cons d t =>
      rw [List.singleton_append, noPair, Bool.and_eq_true] at h
      exact h.2
  | c :: d :: s, h => by
    rw [List.cons_append, List.cons_append, noPair, Bool.and_eq_true] at h
    exact noPair_suffix (s := d :: s) h.2

/-- A text that begins with blanks and a character of a kind is not the start of one in which no such
character follows a blank, when that one has another character. -/
theorem not_blanks_prefix {p q : Char → Bool} {d : Char} {l : List Char} (hp : p ' ' = true)
    (hd : q d = true) : ∀ {n : Nat} {s r : List Char}, s ≠ [] → noPair p q s = true →
      s.getLast? ≠ some ' ' → ¬ (' ' :: (List.replicate n ' ' ++ d :: l)) <+: s ++ r
  | _, [], _, hne, _, _ => absurd rfl hne
  | _, [c], r, _, _, hlast => by
    rintro ⟨t, ht⟩
    rw [List.cons_append, List.cons_append] at ht
    rw [← (List.cons.inj ht).1] at hlast
    exact hlast rfl
  | 0, c :: c' :: s, r, _, hpair, _ => by
    rintro ⟨t, ht⟩
    simp only [List.replicate_zero, List.nil_append, List.cons_append, List.cons.injEq] at ht
    obtain ⟨rfl, rfl, -⟩ := ht
    rw [noPair, hp, hd] at hpair
    cases hpair
  | n + 1, c :: c' :: s, r, _, hpair, hlast => by
    rintro ⟨t, ht⟩
    rw [noPair, Bool.and_eq_true] at hpair
    rw [List.replicate_succ, List.cons_append, List.cons_append, List.cons_append] at ht
    have hrest : ' ' :: (List.replicate n ' ' ++ d :: l) <+: (c' :: s) ++ r :=
      ⟨t, (List.cons.inj ht).2⟩
    refine not_blanks_prefix hp hd (List.cons_ne_nil _ _) hpair.2 ?_ hrest
    rw [List.getLast?_cons_cons] at hlast
    exact hlast

end Library
end OpenstackPlatform
