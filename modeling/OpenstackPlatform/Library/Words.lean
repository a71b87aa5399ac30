import OpenstackPlatform.Library.Text

/-!
# Words between blanks

A text is cut into words at its blanks, however many there are between two words and at the ends.

* `words`: the words of a text.
* `Separated`: the texts that have items of some kind with blanks between them.
* `words_eq_iff`: the words of a text are the ones that it has with blanks between them.
-/

namespace OpenstackPlatform
namespace Library

/-- The pieces between blanks that are not empty. -/
def words (text : List Char) : List (List Char) := (text.splitOn ' ').filter fun word => !word.isEmpty

namespace Words

/-- A text of blanks. -/
def IsBlank (text : List Char) : Prop := ∀ c ∈ text, c = ' '

/-- What may follow a word: nothing, or a text that begins with a blank. -/
def Ends (rest : List Char) : Prop := rest = [] ∨ ∃ tail, rest = ' ' :: tail

/-- A word is not empty and has no blank. -/
structure IsWord (word : List Char) : Prop where
  ne_nil : word ≠ []
  notMem : ' ' ∉ word

/-- The texts of items with blanks between them, and perhaps blanks before and after them. -/
inductive Separated {α : Type} (R : List Char → α → Prop) : List Char → List α → Prop where
  | blank {text : List Char} (h : IsBlank text) : Separated R text []
  | cons {blanks text rest : List Char} {a : α} {as : List α} (hblanks : IsBlank blanks)
      (ha : R text a) (hends : Ends rest) (hrest : Separated R rest as) :
      Separated R (blanks ++ (text ++ rest)) (a :: as)

theorem isBlank_nil : IsBlank [] := fun _ h => absurd h List.not_mem_nil

theorem IsBlank.cons {text : List Char} (h : IsBlank text) : IsBlank (' ' :: text) := by
  intro c hc
  obtain rfl | hc := List.mem_cons.mp hc
  · rfl
  · exact h c hc

/-- Blanks before something that does not begin with one are none. -/
theorem IsBlank.eq_nil {blanks rest : List Char} (h : IsBlank blanks)
    (hhead : (blanks ++ rest).head? ≠ some ' ') : blanks = [] := by
  cases blanks with
  | nil => rfl
  | cons c blanks =>
    rw [h c List.mem_cons_self] at hhead
    exact absurd rfl hhead

/-- Every text is blank, or begins with a word after some blanks. -/
theorem exists_word (text : List Char) : IsBlank text ∨ ∃ blanks word rest, IsBlank blanks ∧
    IsWord word ∧ Ends rest ∧ text = blanks ++ (word ++ rest) := by
  have hblanks : IsBlank (text.takeWhile (· == ' ')) := by
    intro c hc
    have hkept := List.all_eq_true.mp (List.all_takeWhile (p := (· == ' '))) c hc
    exact beq_iff_eq.mp hkept
  have htext := List.takeWhile_append_dropWhile (p := (· == ' ')) (l := text)
  cases hdrop : text.dropWhile (· == ' ') with
  | nil =>
    rw [hdrop, List.append_nil] at htext
    rw [← htext]
    exact .inl hblanks
  | cons c tail =>
    have hc : c ≠ ' ' := by
      have hhead := List.head_dropWhile_not (· == ' ') (l := text) (by rw [hdrop]; simp)
      simpa only [hdrop, List.head_cons, beq_eq_false_iff_ne] using hhead
    refine .inr ⟨_, c :: tail.takeWhile (· != ' '), tail.dropWhile (· != ' '), hblanks,
      ⟨List.cons_ne_nil _ _, ?_⟩, ?_, ?_⟩
    · intro hmem
      obtain heq | hmem := List.mem_cons.mp hmem
      · exact hc heq.symm
      · have hkept := List.all_eq_true.mp (List.all_takeWhile (p := (· != ' '))) ' ' hmem
        cases hkept
    · cases hrest : tail.dropWhile (· != ' ') with
      | nil => exact .inl rfl
      | cons d rest =>
        have hhead := List.head_dropWhile_not (· != ' ') (l := tail) (by rw [hrest]; simp)
        simp only [hrest, List.head_cons, bne_eq_false_iff_eq] at hhead
        exact .inr ⟨rest, by rw [hhead]⟩
    · rw [List.cons_append, List.takeWhile_append_dropWhile, ← hdrop, htext]

/-! ## The words of a text -/

theorem words_blanks {blanks : List Char} (h : IsBlank blanks) (rest : List Char) :
    words (blanks ++ rest) = words rest := by
  induction blanks with
  | nil => rfl
  | cons c blanks ih =>
    rw [h c List.mem_cons_self, ← ih fun d hd => h d (List.mem_cons_of_mem c hd)]
    unfold words
    rw [List.cons_append, ← List.nil_append (' ' :: (blanks ++ rest)),
      List.splitOn_append_cons_self_of_not_mem List.not_mem_nil]
    rfl

variable {text : List Char}

theorem words_eq_nil (h : IsBlank text) : words text = [] := by
  rw [← List.append_nil text, words_blanks h]
  rfl

theorem words_append {word rest : List Char} (h : IsWord word) (hends : Ends rest) :
    words (word ++ rest) = word :: words rest := by
  have hkeep : ∀ ws : List (List Char), (word :: ws).filter (fun word => !word.isEmpty) =
      word :: ws.filter fun word => !word.isEmpty := by
    intro ws
    rw [List.filter_cons, if_pos]
    rw [Bool.not_eq_true', List.isEmpty_eq_false_iff]
    exact h.ne_nil
  obtain rfl | ⟨tail, rfl⟩ := hends
  · rw [List.append_nil]
    unfold words
    rw [List.splitOn_eq_singleton h.notMem, hkeep]
    rfl
  · have htail : words (' ' :: tail) = words tail := words_blanks isBlank_nil.cons tail
    rw [htail]
    unfold words
    rw [List.splitOn_append_cons_self_of_not_mem h.notMem, hkeep]

theorem isWord_of_mem_words {word : List Char} (h : word ∈ words text) : IsWord word := by
  obtain ⟨hmem, hkeep⟩ := List.mem_filter.mp h
  refine ⟨?_, notMem_of_mem_splitOn hmem⟩
  rintro rfl
  cases hkeep

/-- **The words of a text** are the ones that it has with blanks between them. -/
theorem words_eq_iff {ws : List (List Char)} :
    words text = ws ↔ Separated (fun chunk word => chunk = word ∧ IsWord word) text ws := by
  constructor
  · rintro rfl
    induction hlength : text.length using Nat.strong_induction_on generalizing text with
    | h n ih =>
      obtain hblank | ⟨blanks, word, rest, hblanks, hword, hends, rfl⟩ := exists_word text
      · rw [words_eq_nil hblank]
        exact .blank hblank
      · rw [words_blanks hblanks, words_append hword hends]
        refine .cons hblanks ⟨rfl, hword⟩ hends (ih rest.length ?_ rfl)
        have hpos := List.length_pos_iff.mpr hword.ne_nil
        rw [List.length_append, List.length_append] at hlength
        omega
  · intro h
    induction h with
    | blank h => exact words_eq_nil h
    | cons hblanks ha hends hrest ih =>
      obtain ⟨rfl, hword⟩ := ha
      rw [words_blanks hblanks, words_append hword hends, ih]

/-- Items of one kind that are items of another kind. -/
theorem Separated.exists_forall₂ {α β : Type} {R : List Char → α → Prop} {S : List Char → β → Prop}
    {Q : α → β → Prop} {as : List α} (h : Separated R text as)
    (hitems : ∀ chunk, ∀ a ∈ as, R chunk a → ∃ b, Q a b ∧ S chunk b) :
    ∃ bs, List.Forall₂ Q as bs ∧ Separated S text bs := by
  induction h with
  | blank h => exact ⟨[], .nil, .blank h⟩
  | cons hblanks ha hends hrest ih =>
    obtain ⟨b, hb, hchunk⟩ := hitems _ _ List.mem_cons_self ha
    obtain ⟨bs, hbs, hseparated⟩ := ih fun chunk a hmem =>
      hitems chunk a (List.mem_cons_of_mem _ hmem)
    exact ⟨b :: bs, .cons hb hbs, .cons hblanks hchunk hends hseparated⟩

theorem separated_words {ws : List (List Char)} (h : words text = ws) : Separated Eq text ws := by
  obtain ⟨ws', hws, hseparated⟩ :=
    (words_eq_iff.mp h).exists_forall₂ (Q := Eq) (S := Eq) fun _ word _ hchunk => ⟨word, rfl, hchunk.1⟩
  rw [List.forall₂_eq_eq_eq] at hws
  rwa [← hws] at hseparated

/-- The first item of a text that does not begin with a blank. -/
theorem Separated.exists_first {α : Type} {R : List Char → α → Prop} {as : List α}
    (h : Separated R text as) (hne : text ≠ []) (hhead : text.head? ≠ some ' ') :
    ∃ chunk rest a as', text = chunk ++ rest ∧ as = a :: as' ∧ R chunk a ∧ Ends rest ∧
      Separated R rest as' := by
  cases h with
  | blank h =>
    rw [← List.append_nil text] at hhead
    exact absurd (h.eq_nil hhead) hne
  | @cons blanks chunk rest a as hblanks ha hends hrest =>
    obtain rfl := hblanks.eq_nil hhead
    exact ⟨chunk, rest, a, as, rfl, rfl, ha, hends, hrest⟩

/-- The characters of a text are those of its items, and blanks. -/
theorem Separated.notMem {α : Type} {R : List Char → α → Prop} {as : List α}
    (h : Separated R text as) {c : Char} (hc : c ≠ ' ')
    (hitems : ∀ chunk, ∀ a ∈ as, R chunk a → c ∉ chunk) : c ∉ text := by
  induction h with
  | blank h => exact fun hmem => hc (h c hmem)
  | cons hblanks ha hends hrest ih =>
    rw [List.mem_append, List.mem_append, not_or, not_or]
    exact ⟨fun hmem => hc (hblanks c hmem), hitems _ _ List.mem_cons_self ha,
      ih fun chunk a hmem => hitems chunk a (List.mem_cons_of_mem _ hmem)⟩

end Words
end Library
end OpenstackPlatform
