import OpenstackPlatform.RuntimeVersions.Ranges

/-!
# The texts of ranges

What the texts that `parse_range` accepts say.  A range has alternatives with `||` between them.
An alternative is a hyphen range, or comparators with blanks between them that all have to hold; a
comparator is an operator and a partial version, and blanks may follow every character of the
operator.  `RangeText` tells this as a grammar, without the functions of the parser: how a text is
cut at `||`, where a comparator ends, and which blanks are dropped is what the parser has to get
right.

The parser joins the words of an alternative again and drops the blanks after the characters of
operators, so one of its tokens is made of several words.  `tokens_word` tells how, one word at a
time; from it come both directions, that the tokens of a text are spelled in it
(`separated_tokens`) and that what is spelled is what is read (`tokens_eq`).

* `ComparatorText`, `AlternativeText`, `RangeText`: the grammar.
* `Alternative.Holds`: the condition of an alternative.
* `rangeText_iff`: how a text is cut into alternatives.
* `admits_iff_meaning`: an accepted range is spelled, and admits the releases that its spelling is
  about.
-/

namespace OpenstackPlatform
namespace RuntimeVersions

open Library Library.Words

/-! ## The grammar -/

/-- An operator and a partial version. -/
structure Comparator where
  operator : Operator
  version : Partial
  deriving DecidableEq, Repr

/-- Comparators that all have to hold, or a hyphen range. -/
inductive Alternative where
  | comparators (comparators : List Comparator)
  | hyphen (low high : Partial)
  deriving DecidableEq, Repr

/-- The texts of the sign of an operator: blanks may follow each of its characters. -/
inductive Spaced : List Char → List Char → Prop where
  | nil : Spaced [] []
  | cons {c : Char} {sign blanks text : List Char} (hblanks : IsBlank blanks)
      (h : Spaced sign text) : Spaced (c :: sign) (c :: (blanks ++ text))

/-- The texts of a comparator: a sign of its operator before a partial version. -/
inductive ComparatorText : List Char → Comparator → Prop where
  | mk {operator : Operator} {sign spaced text : List Char} {p : Partial}
      (hsign : sign ∈ operator.texts) (hspaced : Spaced sign spaced) (htext : Spells text p) :
      ComparatorText (spaced ++ text) ⟨operator, p⟩

/-- The texts of an alternative: comparators with blanks between them, perhaps none, or two partial
versions with a hyphen between them that has blanks on both sides. -/
inductive AlternativeText : List Char → Alternative → Prop where
  | comparators {text : List Char} {cs : List Comparator} (h : Separated ComparatorText text cs) :
      AlternativeText text (.comparators cs)
  | hyphen {text first last : List Char} {p q : Partial}
      (h : Separated Eq text [first, ['-'], last]) (hfirst : Spells first p)
      (hlast : Spells last q) : AlternativeText text (.hyphen p q)

/-- The texts of a range: alternatives with `||` between them. -/
inductive RangeText : List Char → List Alternative → Prop where
  | one {text : List Char} {a : Alternative} (h : AlternativeText text a) : RangeText text [a]
  | or {text rest : List Char} {a : Alternative} {as : List Alternative}
      (h : AlternativeText text a) (hrest : RangeText rest as) :
      RangeText (text ++ '|' :: '|' :: rest) (a :: as)

/-- The condition of a comparator. -/
def Comparator.Holds (v : Version) (c : Comparator) : Prop := c.operator.Holds v c.version

/-- The condition of an alternative.  A hyphen range is from the first version of one partial
version to the last of the other. -/
def Alternative.Holds (v : Version) : Alternative → Prop
  | comparators cs => ∀ c ∈ cs, c.Holds v
  | hyphen low high => low.AtLeast v ∧ ¬ high.Above v

/-! ## The characters of partial versions -/

def isVersionChar (c : Char) : Bool := c.isAlphanum || ".-+*".toList.contains c

theorem isVersionChar_of_isAlphanum {c : Char} (h : c.isAlphanum = true) :
    isVersionChar c = true := by
  rw [isVersionChar, h, Bool.true_or]

theorem PartText.isVersionChar {text : List Char} {q : Option ℕ} (h : PartText text q) :
    ∀ c ∈ text, isVersionChar c = true := by
  intro c hc
  cases h with
  | number hn =>
    have hdigit := Nat.isDigit_of_mem_toDigits (by decide) (by decide) hc
    exact isVersionChar_of_isAlphanum (by rw [Char.isAlphanum, hdigit, Bool.or_true])
  | wildcard hw =>
    rw [wildcards, List.mem_cons, List.mem_cons, List.mem_singleton] at hw
    obtain rfl | rfl | rfl := hw
    · rw [List.mem_singleton.mp hc]
      decide
    · rw [List.mem_singleton.mp hc]
      decide
    · rw [List.mem_singleton.mp hc]
      decide

theorem IsTag.isVersionChar {sign : Char} {tag : List Char} (h : IsTag sign tag)
    (hsign : RuntimeVersions.isVersionChar sign = true) :
    ∀ c ∈ tag, RuntimeVersions.isVersionChar c = true := by
  obtain ⟨identifiers, -, hall, rfl⟩ := h
  intro c hc
  obtain rfl | hc := List.mem_cons.mp hc
  · exact hsign
  · obtain rfl | ⟨identifier, hmem, hc⟩ := mem_intercalate hc
    · decide
    · obtain halnum | rfl := (hall identifier hmem).2 c hc
      · exact isVersionChar_of_isAlphanum halnum
      · decide

theorem Spells.isVersionChar {text : List Char} {p : Partial} (h : Spells text p) :
    ∀ c ∈ text, isVersionChar c = true := by
  obtain ⟨hv, hparts, hpre, hbuild, -, -⟩ := h
  intro c hc
  rw [List.mem_append, List.mem_append, List.mem_append] at hc
  obtain hc | hc | hc | hc := hc
  · obtain rfl | rfl := hv
    · cases hc
    · rw [List.mem_singleton.mp hc]
      decide
  · obtain rfl | ⟨part, hmem, hc⟩ := mem_intercalate hc
    · decide
    · obtain ⟨q, hq⟩ := exists_of_mem_left hparts hmem
      exact hq.isVersionChar c hc
  · obtain rfl | htag := hpre
    · cases hc
    · exact htag.isVersionChar (by decide) c hc
  · obtain rfl | htag := hbuild
    · cases hc
    · exact htag.isVersionChar (by decide) c hc

/-- A partial version has no blank, no character of an operator and no bar. -/
theorem not_of_isVersionChar {c : Char} (h : isVersionChar c = true) :
    c ≠ ' ' ∧ isOperatorChar c = false ∧ c ≠ '|' := by
  refine ⟨?_, ?_, ?_⟩
  · rintro rfl
    cases h
  · rw [isOperatorChar, List.contains_eq_mem, decide_eq_false_iff_not]
    intro hmem
    have hnone : ∀ d ∈ "^~<>=".toList, isVersionChar d = false := by decide
    rw [hnone c hmem] at h
    cases h
  · rintro rfl
    cases h

variable {text : List Char} {p : Partial}

theorem Spells.isWord (h : Spells text p) : IsWord text where
  ne_nil := by
    obtain ⟨c, rest, rfl, -⟩ := h.head
    exact List.cons_ne_nil c rest
  notMem hmem := (not_of_isVersionChar (h.isVersionChar _ hmem)).1 rfl

theorem Spells.notOperator (h : Spells text p) : ∀ c ∈ text, isOperatorChar c = false := fun c hc =>
  (not_of_isVersionChar (h.isVersionChar c hc)).2.1

/-- A text spells one partial version. -/
theorem Spells.unique {q : Partial} (hp : Spells text p) (hq : Spells text q) : p = q :=
  Option.some.inj ((partialOf_eq_some_iff.mpr hp).symm.trans (partialOf_eq_some_iff.mpr hq))

/-! ## Comparators -/

/-- The texts of a comparator without blanks. -/
inductive TokenText : List Char → Comparator → Prop where
  | mk {operator : Operator} {sign text : List Char} {p : Partial}
      (hsign : sign ∈ operator.texts) (htext : Spells text p) :
      TokenText (sign ++ text) ⟨operator, p⟩

variable {token : List Char} {interval : Interval}

/-- What is read as a comparator. -/
theorem comparator_eq_some_iff : comparator token = some interval ↔
      ∃ c, TokenText token c ∧ c.operator.interval c.version = interval := by
  constructor
  · intro h
    obtain ⟨p, hp, rfl⟩ := Option.map_eq_some_iff.mp h
    cases hread : readOperator token with
    | mk operator text =>
      rw [hread] at hp
      obtain ⟨sign, hsign, rfl⟩ := readOperator_sound hread
      exact ⟨⟨operator, p⟩, .mk hsign (partialOf_eq_some_iff.mp hp), rfl⟩
  · rintro ⟨c, ⟨hsign, htext⟩, rfl⟩
    rw [comparator, readOperator_append hsign htext, partialOf_eq_some_iff.mpr htext]
    rfl

theorem TokenText.unique {c d : Comparator} (hc : TokenText token c) (hd : TokenText token d) :
    c = d := by
  obtain ⟨hsign, htext⟩ := hc
  rename_i operator sign text p
  generalize htoken : sign ++ text = token at hd
  obtain ⟨hsign', htext'⟩ := hd
  have hread := readOperator_append hsign htext
  rw [htoken, readOperator_append hsign' htext'] at hread
  obtain ⟨rfl, rfl⟩ := Prod.mk.inj hread
  rw [htext.unique htext']

/-- A comparator admits the releases for which it holds. -/
theorem admits_token {v : Version} (h : comparator token = some interval) {c : Comparator}
    (hc : TokenText token c) : interval.admits v.key = true ↔ c.Holds v := by
  obtain ⟨d, hd, rfl⟩ := comparator_eq_some_iff.mp h
  rw [hc.unique hd]
  exact admits_interval

/-- The comparators of an alternative are intersected. -/
theorem admits_foldlM {v : Version} {ts : List (List Char)} {start : Interval}
    (h : ts.foldlM (fun interval token => (comparator token).map interval.intersect) start =
      some interval) :
    ∃ cs, List.Forall₂ TokenText ts cs ∧
      (interval.admits v.key = true ↔ start.admits v.key = true ∧ ∀ c ∈ cs, c.Holds v) := by
  induction ts generalizing start with
  | nil =>
    cases h
    exact ⟨[], .nil, (and_iff_left fun c hc => absurd hc List.not_mem_nil).symm⟩
  | cons token ts ih =>
    rw [List.foldlM_cons] at h
    obtain ⟨next, hnext, h⟩ := Option.bind_eq_some_iff.mp h
    obtain ⟨other, hother, rfl⟩ := Option.map_eq_some_iff.mp hnext
    obtain ⟨c, hc, -⟩ := comparator_eq_some_iff.mp hother
    obtain ⟨cs, hcs, hadmits⟩ := ih h
    refine ⟨c :: cs, .cons hc hcs, ?_⟩
    rw [hadmits, Span.admits_intersect, Bool.and_eq_true, admits_token hother hc, and_assoc,
      List.forall_mem_cons]

variable {first last : List Char}

theorem admits_hyphen {v : Version} (h : hyphen first last = some interval) :
    ∃ p q : Partial, Spells first p ∧ Spells last q ∧
      (interval.admits v.key = true ↔ p.AtLeast v ∧ ¬ q.Above v) := by
  obtain ⟨low, hlow, h⟩ := Option.bind_eq_some_iff.mp h
  obtain ⟨high, hhigh, rfl⟩ := Option.map_eq_some_iff.mp h
  refine ⟨low, high, partialOf_eq_some_iff.mp hlow, partialOf_eq_some_iff.mp hhigh, ?_⟩
  have hlower : low.lower.all (·.isBelow v.key) = true ↔ low.AtLeast v := by
    cases low with
    | any => exact iff_of_true rfl trivial
    | of n => rw [Partial.lower, Option.all_some, Bound.isBelow_inclusive, start_le_iff]
  have hupper : high.upper.all (·.isAbove v.key) = true ↔ ¬ high.Above v := by
    cases high with
    | any => exact iff_of_true rfl id
    | of n =>
      rw [Partial.upper, Option.all_some]
      cases hn : n.exact with
      | true => rw [if_pos rfl, Bound.isAbove_inclusive, le_start_iff hn]
      | false => rw [if_neg Bool.false_ne_true, Bound.isAbove_exclusive, lt_after_iff hn]
  rw [Span.admits_iff, hlower, hupper]

/-! ## Tokens -/

/-- Whether a text ends with a character of an operator. -/
def endsOpen (after : Bool) : List Char → Bool
  | [] => after
  | c :: rest => endsOpen (isOperatorChar c) rest

theorem endsOpen_append (after : Bool) (a b : List Char) :
    endsOpen after (a ++ b) = endsOpen (endsOpen after a) b := by
  induction a generalizing after with
  | nil => rfl
  | cons c a ih => exact ih _

theorem endsOpen_of_ne_nil (h : text ≠ []) (after : Bool) :
    endsOpen after text = endsOpen false text := by
  cases text with
  | nil => exact absurd rfl h
  | cons c rest => rfl

theorem endsOpen_of_forall (hne : text ≠ []) (h : ∀ c ∈ text, isOperatorChar c = false)
    (after : Bool) : endsOpen after text = false := by
  induction text generalizing after with
  | nil => exact absurd rfl hne
  | cons c rest ih =>
    rw [endsOpen, h c List.mem_cons_self]
    cases rest with
    | nil => rfl
    | cons d rest =>
      have hrest : ∀ e ∈ d :: rest, isOperatorChar e = false := fun e he =>
        h e (List.mem_cons_of_mem c he)
      exact ih (List.cons_ne_nil d rest) hrest false

variable {word : List Char}

theorem closeOperators_append (h : ' ' ∉ word) (after : Bool) (rest : List Char) :
    closeOperators after (word ++ rest) =
      word ++ closeOperators (endsOpen after word) rest := by
  induction word generalizing after with
  | nil => rfl
  | cons c word ih =>
    rw [List.mem_cons, not_or] at h
    rw [List.cons_append, closeOperators, if_neg (Ne.symm h.1), ih h.2]
    rfl

theorem closeOperators_true {rest : List Char} (h : rest.head? ≠ some ' ') :
    closeOperators true rest = closeOperators false rest := by
  cases rest with
  | nil => rfl
  | cons c rest =>
    have hc : ¬ c = ' ' := fun hc => h (congrArg some hc)
    rw [closeOperators, closeOperators, if_neg hc, if_neg hc]

/-- A word before the first of some words, without a blank between them. -/
def glue (word : List Char) : List (List Char) → List (List Char)
  | [] => [word]
  | first :: ws => (word ++ first) :: ws

theorem words_glue (hword : IsWord word) (h : text.head? ≠ some ' ') :
    words (word ++ text) = glue word (words text) := by
  obtain hblank | ⟨blanks, first, rest, hblanks, hfirst, hends, rfl⟩ := exists_word text
  · rw [← List.append_nil text] at h
    rw [hblank.eq_nil h, words_append hword (.inl rfl)]
    rfl
  · obtain rfl := hblanks.eq_nil h
    have hjoined : IsWord (word ++ first) := by
      refine ⟨List.append_ne_nil_of_left_ne_nil hword.ne_nil _, fun hmem => ?_⟩
      obtain hmem | hmem := List.mem_append.mp hmem
      · exact hword.notMem hmem
      · exact hfirst.notMem hmem
    rw [List.nil_append, ← List.append_assoc, words_append hjoined hends,
      words_append hfirst hends]
    rfl

theorem tokens_blanks {blanks : List Char} (h : IsBlank blanks) (rest : List Char) :
    tokens (blanks ++ rest) = tokens rest := by
  rw [tokens, words_blanks h, tokens]

theorem tokens_eq_nil (h : IsBlank text) : tokens text = [] := by
  rw [tokens, words_eq_nil h]
  rfl

/-- The first word of a text is a token, or the beginning of the next one if it ends like an
operator. -/
theorem tokens_word {rest : List Char} (hword : IsWord word) (hends : Ends rest) :
    tokens (word ++ rest) =
      if endsOpen false word then glue word (tokens rest) else word :: tokens rest := by
  rw [tokens, words_append hword hends, tokens]
  cases hws : words rest with
  | nil =>
    have hclose := closeOperators_append hword.notMem false []
    have hone := words_append hword (.inl rfl)
    rw [List.append_nil] at hclose hone
    rw [intercalate_singleton, hclose, closeOperators, List.append_nil, hone]
    split
    · rfl
    · rfl
  | cons next ws =>
    have hnext : IsWord next := isWord_of_mem_words (hws ▸ List.mem_cons_self)
    have hhead : (List.intercalate [' '] (next :: ws)).head? ≠ some ' ' := by
      rw [head?_intercalate hnext.ne_nil]
      exact fun hhead => hnext.notMem (List.mem_of_mem_head? hhead)
    have hstart : (closeOperators false (List.intercalate [' '] (next :: ws))).head? ≠ some ' ' := by
      cases hjoin : List.intercalate [' '] (next :: ws) with
      | nil => simp [closeOperators]
      | cons c rest =>
        rw [hjoin, List.head?_cons] at hhead
        have hc : ¬ c = ' ' := fun hc => hhead (congrArg some hc)
        rw [closeOperators, if_neg hc, List.head?_cons]
        exact hhead
    rw [intercalate_cons_cons, closeOperators_append hword.notMem, closeOperators, if_pos rfl]
    split
    · rw [closeOperators_true hhead, words_glue hword hstart]
    · rw [words_append hword (.inr ⟨_, rfl⟩)]
      exact congrArg (word :: ·) (words_blanks isBlank_nil.cons _)

/-- A character that stands before a token. -/
theorem tokens_cons {c : Char} (hc : c ≠ ' ') (hne : text ≠ []) (hhead : text.head? ≠ some ' ') :
    tokens (c :: text) = glue [c] (tokens text) := by
  obtain hblank | ⟨blanks, word, rest, hblanks, hword, hends, rfl⟩ := exists_word text
  · rw [← List.append_nil text] at hhead
    exact absurd (hblank.eq_nil hhead) hne
  · obtain rfl := hblanks.eq_nil hhead
    have hlonger : IsWord (c :: word) := by
      refine ⟨List.cons_ne_nil c word, fun hmem => ?_⟩
      obtain heq | hmem := List.mem_cons.mp hmem
      · exact hc heq.symm
      · exact hword.notMem hmem
    rw [List.nil_append, ← List.cons_append, tokens_word hlonger hends, tokens_word hword hends,
      endsOpen, endsOpen_of_ne_nil hword.ne_nil]
    split
    · cases tokens rest with
      | nil => rfl
      | cons token ts => rfl
    · rfl

/-- The texts of a token: blanks may follow the characters of operators. -/
inductive Spread : List Char → List Char → Prop where
  | nil : Spread [] []
  | cons {c : Char} {token blanks chunk : List Char} (hc : c ≠ ' ') (hblanks : IsBlank blanks)
      (hopen : blanks = [] ∨ isOperatorChar c = true) (h : Spread token chunk) :
      Spread (c :: token) (c :: (blanks ++ chunk))

theorem Spread.refl (h : ' ' ∉ word) : Spread word word := by
  induction word with
  | nil => exact .nil
  | cons c word ih =>
    rw [List.mem_cons, not_or] at h
    exact @Spread.cons c word [] word (Ne.symm h.1) isBlank_nil (.inl rfl) (ih h.2)

variable {chunk : List Char}

/-- A word that ends like an operator goes before a token. -/
theorem Spread.append {blanks : List Char} (hword : IsWord word)
    (hopen : endsOpen false word = true) (hblanks : IsBlank blanks) (h : Spread token chunk) :
    Spread (word ++ token) (word ++ (blanks ++ chunk)) := by
  obtain ⟨hne, hnone⟩ := hword
  induction word with
  | nil => exact absurd rfl hne
  | cons c word ih =>
    rw [List.mem_cons, not_or] at hnone
    cases word with
    | nil =>
      show Spread (c :: token) (c :: (blanks ++ chunk))
      exact .cons (Ne.symm hnone.1) hblanks (.inr hopen) h
    | cons d word =>
      rw [endsOpen, endsOpen_of_ne_nil (List.cons_ne_nil d word)] at hopen
      exact @Spread.cons c _ [] _ (Ne.symm hnone.1) isBlank_nil (.inl rfl)
        (ih hopen (List.cons_ne_nil d word) hnone.2)

/-- **The tokens of a text are spelled in it**, with blanks between them and after the characters of
operators. -/
theorem separated_tokens (text : List Char) :
    Separated (fun chunk token => token ≠ [] ∧ Spread token chunk) text (tokens text) := by
  induction hlength : text.length using Nat.strong_induction_on generalizing text with
  | h n ih =>
    obtain hblank | ⟨blanks, word, rest, hblanks, hword, hends, rfl⟩ := exists_word text
    · rw [tokens_eq_nil hblank]
      exact .blank hblank
    · have hpos := List.length_pos_iff.mpr hword.ne_nil
      rw [List.length_append, List.length_append] at hlength
      have halone : Separated (fun chunk token => token ≠ [] ∧ Spread token chunk)
          (blanks ++ (word ++ rest)) (word :: tokens rest) :=
        .cons hblanks ⟨hword.ne_nil, .refl hword.notMem⟩ hends (ih rest.length (by omega) rest rfl)
      rw [tokens_blanks hblanks, tokens_word hword hends]
      split
      · rename_i hopen
        obtain hblank | ⟨blanks', next, rest', hblanks', hnext, hends', rfl⟩ := exists_word rest
        · rw [tokens_eq_nil hblank] at halone ⊢
          exact halone
        · rw [List.length_append] at hlength
          have hhead : (next ++ rest').head? ≠ some ' ' := by
            rw [List.head?_append_of_ne_nil _ hnext.ne_nil]
            exact fun hhead => hnext.notMem (List.mem_of_mem_head? hhead)
          obtain ⟨chunk, after, token, ts, htext, htokens, ⟨hne, hspread⟩, hafter, hrest⟩ :=
            (ih (next ++ rest').length (by omega) _ rfl).exists_first
              (List.append_ne_nil_of_left_ne_nil hnext.ne_nil _) hhead
          rw [tokens_blanks hblanks', htokens, htext, glue]
          have hassoc : blanks ++ (word ++ (blanks' ++ (chunk ++ after))) =
              blanks ++ ((word ++ (blanks' ++ chunk)) ++ after) := by
            simp only [List.append_assoc]
          rw [hassoc]
          exact .cons hblanks ⟨List.append_ne_nil_of_left_ne_nil hword.ne_nil _,
            .append hword hopen hblanks' hspread⟩ hafter hrest
      · exact halone

/-- A token that does not end like an operator is read where it is spelled. -/
theorem tokens_spread {rest : List Char} (h : Spread token chunk) (hne : token ≠ [])
    (hclosed : endsOpen false token = false) (hends : Ends rest) :
    tokens (chunk ++ rest) = token :: tokens rest := by
  induction h with
  | nil => exact absurd rfl hne
  | @cons c token blanks chunk hc hblanks hopen h ih =>
    have hchar : IsWord [c] := ⟨List.cons_ne_nil c [], fun hmem =>
      hc (List.mem_singleton.mp hmem).symm⟩
    cases token with
    | nil =>
      cases h
      have hnot : isOperatorChar c = false := hclosed
      obtain rfl | hoperator := hopen
      · have hword := tokens_word hchar hends
        rw [if_neg (show ¬ endsOpen false [c] = true from Bool.eq_false_iff.mp hnot)] at hword
        exact hword
      · rw [hoperator] at hnot
        cases hnot
    | cons d token =>
      rw [endsOpen, endsOpen_of_ne_nil (List.cons_ne_nil d token)] at hclosed
      have htokens := ih (List.cons_ne_nil d token) hclosed
      cases blanks with
      | nil =>
        have hhead : (chunk ++ rest).head? ≠ some ' ' ∧ chunk ++ rest ≠ [] := by
          cases h with
          | cons hd =>
            exact ⟨fun hhead => hd (Option.some.inj hhead), List.cons_ne_nil _ _⟩
        have hcons := tokens_cons hc hhead.2 hhead.1
        rw [htokens] at hcons
        exact hcons
      | cons b blanks =>
        have hoperator : isOperatorChar c = true := hopen.resolve_left (List.cons_ne_nil b blanks)
        have hstarts : Ends (b :: blanks ++ (chunk ++ rest)) :=
          .inr ⟨blanks ++ (chunk ++ rest), by rw [hblanks b List.mem_cons_self]; rfl⟩
        have hword := tokens_word hchar hstarts
        rw [if_pos (show endsOpen false [c] = true from hoperator), tokens_blanks hblanks, htokens]
          at hword
        rw [List.cons_append, List.append_assoc]
        exact hword

/-- **What is spelled is what is read**: the tokens of a text are those that it has with blanks
between them, where none of these ends like an operator. -/
theorem tokens_eq {ts : List (List Char)}
    (h : Separated (fun chunk token => (token ≠ [] ∧ endsOpen false token = false) ∧
      Spread token chunk) text ts) : tokens text = ts := by
  induction h with
  | blank h => exact tokens_eq_nil h
  | cons hblanks ha hends hrest ih =>
    rw [tokens_blanks hblanks, tokens_spread ha.2 ha.1.1 ha.1.2 hends, ih]

/-! ## Comparators in a text -/

theorem isOperatorChar_of_mem_texts {operator : Operator} {sign : List Char}
    (h : sign ∈ operator.texts) : ∀ c ∈ sign, isOperatorChar c = true := by
  have hall : operator.texts.all (·.all isOperatorChar) = true := by
    cases operator <;> rfl
  exact List.all_eq_true.mp (List.all_eq_true.mp hall sign h)

theorem TokenText.closed {token : List Char} {c : Comparator} (h : TokenText token c) :
    token ≠ [] ∧ endsOpen false token = false := by
  obtain ⟨hsign, htext⟩ := h
  refine ⟨List.append_ne_nil_of_right_ne_nil _ htext.isWord.ne_nil, ?_⟩
  rw [endsOpen_append]
  exact endsOpen_of_forall htext.isWord.ne_nil htext.notOperator _

/-- A sign with blanks in it, before a text. -/
theorem Spaced.spread {sign spaced : List Char} (h : Spaced sign spaced)
    (hsign : ∀ c ∈ sign, isOperatorChar c = true) (htext : ' ' ∉ text) :
    Spread (sign ++ text) (spaced ++ text) := by
  induction h with
  | nil => exact .refl htext
  | @cons c sign blanks spaced hblanks h ih =>
    have hc := hsign c List.mem_cons_self
    have hne : c ≠ ' ' := by
      rintro rfl
      cases hc
    rw [List.cons_append, List.cons_append, List.append_assoc]
    exact .cons hne hblanks (.inr hc) (ih fun d hd => hsign d (List.mem_cons_of_mem c hd))

theorem Spread.eq_of_notOperator (h : Spread text chunk)
    (htext : ∀ c ∈ text, isOperatorChar c = false) : chunk = text := by
  induction h with
  | nil => rfl
  | @cons c text blanks chunk hc hblanks hopen h ih =>
    obtain rfl | hoperator := hopen
    · rw [List.nil_append, ih fun d hd => htext d (List.mem_cons_of_mem c hd)]
    · rw [htext c List.mem_cons_self] at hoperator
      cases hoperator

theorem Spread.spaced {sign text chunk : List Char} (h : Spread (sign ++ text) chunk)
    (htext : ∀ c ∈ text, isOperatorChar c = false) :
    ∃ spaced, Spaced sign spaced ∧ chunk = spaced ++ text := by
  induction sign generalizing chunk with
  | nil => exact ⟨[], .nil, h.eq_of_notOperator htext⟩
  | cons c sign ih =>
    cases h with
    | cons hc hblanks hopen h =>
      obtain ⟨spaced, hspaced, rfl⟩ := ih h
      exact ⟨_, .cons hblanks hspaced, by rw [List.cons_append, List.append_assoc]⟩

/-- A comparator is spelled like its token, with blanks after characters of its operator. -/
theorem comparatorText_iff {c : Comparator} :
    ComparatorText chunk c ↔ ∃ token, TokenText token c ∧ Spread token chunk := by
  constructor
  · rintro ⟨hsign, hspaced, htext⟩
    exact ⟨_, .mk hsign htext,
      hspaced.spread (isOperatorChar_of_mem_texts hsign) htext.isWord.notMem⟩
  · rintro ⟨token, ⟨hsign, htext⟩, hspread⟩
    obtain ⟨spaced, hspaced, rfl⟩ := hspread.spaced htext.notOperator
    exact .mk hsign hspaced htext

/-! ## Alternatives -/

theorem hyphenEnds_eq_some_iff :
    hyphenEnds text = some (first, last) ↔ words text = [first, ['-'], last] := by
  unfold hyphenEnds
  constructor
  · intro h
    split at h
    · rename_i hwords
      cases h
      exact hwords
    · cases h
  · intro h
    rw [h]
    rfl

/-- The words of a hyphen range are told apart. -/
theorem words_hyphen {q : Partial} (h : Separated Eq text [first, ['-'], last])
    (hfirst : Spells first p) (hlast : Spells last q) : words text = [first, ['-'], last] := by
  have hword : ∀ chunk, ∀ word ∈ [first, ['-'], last], chunk = word →
      ∃ word', word = word' ∧ chunk = word' ∧ IsWord word' := by
    rintro chunk word hmem rfl
    refine ⟨chunk, rfl, rfl, ?_⟩
    simp only [List.mem_cons, List.not_mem_nil, or_false] at hmem
    obtain rfl | rfl | rfl := hmem
    · exact hfirst.isWord
    · exact ⟨List.cons_ne_nil _ _, by decide⟩
    · exact hlast.isWord
  obtain ⟨ws, hws, hseparated⟩ := h.exists_forall₂ hword
  rw [List.forall₂_eq_eq_eq] at hws
  rw [words_eq_iff.mpr hseparated, hws]

/-- An alternative that is accepted is spelled. -/
theorem exists_alternativeText (h : alternative text = some interval) :
    ∃ a, AlternativeText text a := by
  rw [alternative] at h
  split at h
  · rename_i first last hends
    obtain ⟨p, q, hp, hq, -⟩ := admits_hyphen (v := ⟨0, 0, 0⟩) h
    have hseparated := separated_words (hyphenEnds_eq_some_iff.mp hends)
    exact ⟨.hyphen p q, .hyphen hseparated hp hq⟩
  · obtain ⟨cs, hcs, -⟩ := admits_foldlM (v := ⟨0, 0, 0⟩) h
    have hcomparator : ∀ chunk, ∀ token ∈ tokens text, (token ≠ [] ∧ Spread token chunk) →
        ∃ c, TokenText token c ∧ ComparatorText chunk c := by
      rintro chunk token hmem ⟨-, hspread⟩
      obtain ⟨c, hc⟩ := exists_of_mem_left hcs hmem
      exact ⟨c, hc, comparatorText_iff.mpr ⟨token, hc, hspread⟩⟩
    obtain ⟨cs, -, hseparated⟩ := (separated_tokens text).exists_forall₂ hcomparator
    exact ⟨.comparators cs, .comparators hseparated⟩

/-- The tokens of comparators are theirs. -/
theorem tokens_comparators {cs : List Comparator} (h : Separated ComparatorText text cs) :
    List.Forall₂ TokenText (tokens text) cs := by
  have htoken : ∀ chunk, ∀ c ∈ cs, ComparatorText chunk c →
      ∃ token, TokenText token c ∧
        ((token ≠ [] ∧ endsOpen false token = false) ∧ Spread token chunk) := by
    intro chunk c _ hchunk
    obtain ⟨token, htoken, hspread⟩ := comparatorText_iff.mp hchunk
    exact ⟨token, htoken, htoken.closed, hspread⟩
  obtain ⟨ts, hts, hseparated⟩ := h.exists_forall₂ htoken
  rw [tokens_eq hseparated]
  exact List.Forall₂.flip hts

/-- No comparators are spelled like a hyphen range. -/
theorem hyphenEnds_comparators {cs : List Comparator} (h : Separated ComparatorText text cs)
    {q : Partial} (hfirst : Spells first p) (hlast : Spells last q) :
    hyphenEnds text ≠ some (first, last) := by
  intro hends
  have hclosed : ∀ chunk, ∀ word ∈ [first, ['-'], last], (chunk = word ∧ IsWord word) →
      ∃ token, word = token ∧
        ((token ≠ [] ∧ endsOpen false token = false) ∧ Spread token chunk) := by
    rintro chunk word hmem ⟨rfl, hword⟩
    refine ⟨chunk, rfl, ⟨hword.ne_nil, ?_⟩, .refl hword.notMem⟩
    simp only [List.mem_cons, List.not_mem_nil, or_false] at hmem
    obtain rfl | rfl | rfl := hmem
    · exact endsOpen_of_forall hword.ne_nil hfirst.notOperator _
    · rfl
    · exact endsOpen_of_forall hword.ne_nil hlast.notOperator _
  obtain ⟨ts, hts, hseparated⟩ :=
    (words_eq_iff.mp (hyphenEnds_eq_some_iff.mp hends)).exists_forall₂ hclosed
  rw [List.forall₂_eq_eq_eq] at hts
  have htokens := tokens_comparators h
  rw [tokens_eq hseparated, ← hts] at htokens
  -- a lone hyphen is no comparator
  obtain ⟨c, hc⟩ := exists_of_mem_left htokens (List.mem_cons_of_mem first List.mem_cons_self)
  have hnone : comparator ['-'] = none := by rfl
  rw [comparator_eq_some_iff.mpr ⟨c, hc, rfl⟩] at hnone
  cases hnone

/-- **An alternative admits the releases for which its condition holds**, however it is spelled. -/
theorem admits_alternative (h : alternative text = some interval) {a : Alternative}
    (ha : AlternativeText text a) (v : Version) : interval.admits v.key = true ↔ a.Holds v := by
  rw [alternative] at h
  cases ha with
  | @comparators cs hspelled =>
    split at h
    · rename_i first last hends
      obtain ⟨p, q, hp, hq, -⟩ := admits_hyphen (v := v) h
      exact absurd hends (hyphenEnds_comparators hspelled hp hq)
    · obtain ⟨cs', hcs', hadmits⟩ := admits_foldlM (v := v) h
      have hsame : cs = cs' := List.right_unique_forall₂' (fun _ _ _ hc hd => hc.unique hd)
        (tokens_comparators hspelled) hcs'
      rw [hadmits, and_iff_right (admits_any v.key), hsame]
      rfl
  | @hyphen first last p q hspelled hfirst hlast =>
    rw [hyphenEnds_eq_some_iff.mpr (words_hyphen hspelled hfirst hlast)] at h
    obtain ⟨p', q', hp, hq, hadmits⟩ := admits_hyphen (v := v) h
    rw [hadmits, hp.unique hfirst, hq.unique hlast]
    rfl

/-! ## Ranges -/

theorem splitOr_cons {c : Char} (hc : c ≠ '|') (rest : List Char) :
    splitOr (c :: rest) = (splitOr rest).modifyHead (c :: ·) := by
  rw [splitOr]
  rintro rest' rfl
  exact fun _ => hc rfl

/-- A text without a bar is one piece. -/
theorem splitOr_text (h : '|' ∉ text) : splitOr text = [text] := by
  induction text with
  | nil => rfl
  | cons c text ih =>
    rw [List.mem_cons, not_or] at h
    rw [splitOr_cons (Ne.symm h.1), ih h.2]
    rfl

theorem splitOr_or (h : '|' ∉ text) (rest : List Char) :
    splitOr (text ++ '|' :: '|' :: rest) = text :: splitOr rest := by
  induction text with
  | nil => rfl
  | cons c text ih =>
    rw [List.mem_cons, not_or] at h
    rw [List.cons_append, splitOr_cons (Ne.symm h.1), ih h.2]
    rfl

/-- The first piece of a text, and what there is after it. -/
theorem splitOr_cases (text : List Char) :
    splitOr text = [text] ∨ ∃ piece rest, text = piece ++ '|' :: '|' :: rest ∧
      splitOr text = piece :: splitOr rest := by
  induction text using splitOr.induct with
  | case1 => exact .inl rfl
  | case2 rest ih => exact .inr ⟨[], rest, rfl, rfl⟩
  | case3 c rest hbars ih =>
    have hcons : splitOr (c :: rest) = (splitOr rest).modifyHead (c :: ·) := by
      rw [splitOr]
      exact hbars
    rw [hcons]
    obtain hone | ⟨piece, rest', rfl, hsplit⟩ := ih
    · rw [hone]
      exact .inl rfl
    · rw [hsplit]
      exact .inr ⟨c :: piece, rest', rfl, rfl⟩

theorem Spells.notMem_bar (h : Spells text p) : '|' ∉ text :=
  fun hmem => (not_of_isVersionChar (h.isVersionChar _ hmem)).2.2 rfl

theorem Spaced.notMem_bar {sign spaced : List Char} (h : Spaced sign spaced)
    (hsign : ∀ c ∈ sign, isOperatorChar c = true) : '|' ∉ spaced := by
  induction h with
  | nil => exact List.not_mem_nil
  | @cons c sign blanks spaced hblanks h ih =>
    rw [List.mem_cons, List.mem_append, not_or, not_or]
    refine ⟨?_, fun hmem => absurd (hblanks _ hmem) (by decide),
      ih fun d hd => hsign d (List.mem_cons_of_mem c hd)⟩
    rintro rfl
    cases hsign _ List.mem_cons_self

/-- There is no bar in an alternative. -/
theorem AlternativeText.notMem_bar {a : Alternative} (h : AlternativeText text a) : '|' ∉ text := by
  cases h with
  | comparators h =>
    refine h.notMem (by decide) ?_
    rintro chunk c - ⟨hsign, hspaced, htext⟩ hmem
    obtain hmem | hmem := List.mem_append.mp hmem
    · exact hspaced.notMem_bar (isOperatorChar_of_mem_texts hsign) hmem
    · exact htext.notMem_bar hmem
  | @hyphen first last p q h hfirst hlast =>
    refine h.notMem (by decide) ?_
    rintro chunk word hword rfl
    simp only [List.mem_cons, List.not_mem_nil, or_false] at hword
    obtain rfl | rfl | rfl := hword
    · exact hfirst.notMem_bar
    · decide
    · exact hlast.notMem_bar

/-- **A range is cut at its bars.** -/
theorem rangeText_iff {as : List Alternative} :
    RangeText text as ↔ List.Forall₂ AlternativeText (splitOr text) as := by
  constructor
  · intro h
    induction h with
    | one h =>
      rw [splitOr_text h.notMem_bar]
      exact .cons h .nil
    | or h hrest ih =>
      rw [splitOr_or h.notMem_bar]
      exact .cons h ih
  · intro h
    induction hlength : text.length using Nat.strong_induction_on generalizing text as with
    | h n ih =>
      obtain hone | ⟨piece, rest, rfl, hsplit⟩ := splitOr_cases text
      · rw [hone] at h
        cases h with
        | cons ha htail =>
          cases htail
          exact .one ha
      · rw [hsplit] at h
        cases h with
        | cons ha htail =>
          rw [List.length_append, List.length_cons, List.length_cons] at hlength
          exact .or ha (ih rest.length (by omega) htail rfl)

section Pieces

variable {texts : List (List Char)} {intervals : List Interval}

theorem exists_alternatives (h : List.Forall₂ (fun text interval => alternative text = some interval)
    texts intervals) : ∃ as, List.Forall₂ AlternativeText texts as := by
  induction h with
  | nil => exact ⟨[], .nil⟩
  | cons hpiece h ih =>
    obtain ⟨a, ha⟩ := exists_alternativeText hpiece
    obtain ⟨as, has⟩ := ih
    exact ⟨a :: as, .cons ha has⟩

/-- One of the intervals admits a release when the condition of one of the alternatives holds. -/
theorem admits_alternatives {as : List Alternative} {v : Version}
    (h : List.Forall₂ (fun text interval => alternative text = some interval) texts intervals)
    (has : List.Forall₂ AlternativeText texts as) :
    (∃ interval ∈ intervals, interval.admits v.key = true) ↔ ∃ a ∈ as, a.Holds v := by
  induction h generalizing as with
  | nil =>
    cases has
    exact iff_of_false (fun ⟨_, hmem, _⟩ => List.not_mem_nil hmem)
      fun ⟨_, hmem, _⟩ => List.not_mem_nil hmem
  | cons hpiece h ih =>
    cases has with
    | cons ha has => rw [List.exists_mem_cons_iff, List.exists_mem_cons_iff,
        admits_alternative hpiece ha v, ih has]

end Pieces

/-- **An accepted range admits the releases that its text is about.**  The text is spelled as
alternatives in the grammar; and whichever way it is spelled, a release is admitted exactly when the
condition of one of the alternatives holds of it. -/
theorem admits_iff_meaning {value : String} {range : VersionRange}
    (h : parseRange value = some range) :
    (∃ alternatives, RangeText value.toList alternatives) ∧
      ∀ alternatives, RangeText value.toList alternatives → ∀ v : Version,
        range.admits v = true ↔ ∃ a ∈ alternatives, a.Holds v := by
  rw [parseRange] at h
  split at h
  · cases h
  · obtain ⟨intervals, hintervals, rfl⟩ := Option.map_eq_some_iff.mp h
    have hpieces : List.Forall₂ (fun text interval => alternative text = some interval)
        (splitOr value.toList) intervals := (mapM_eq_some_iff fun _ _ => Iff.rfl).mp hintervals
    constructor
    · obtain ⟨alternatives, halternatives⟩ := exists_alternatives hpieces
      exact ⟨alternatives, rangeText_iff.mpr halternatives⟩
    · intro alternatives hspelled v
      rw [VersionRange.admits_iff]
      exact admits_alternatives hpieces (rangeText_iff.mp hspelled)

/-- A caret range with a blank in its comparator, or a hyphen range. -/
theorem caret_text : RangeText "^ 0.2.3 || 2 - 3.x".toList
    [.comparators [⟨.caret, .of (.patch 0 2 3 false)⟩], .hyphen (.of (.major 2)) (.of (.major 3))] := by
  have hsign : Spaced ['^'] "^ ".toList := .cons (fun c hc => List.mem_singleton.mp hc) .nil
  have htext : Spells "0.2.3".toList (.of (.patch 0 2 3 false)) :=
    partialOf_eq_some_iff.mp (by rfl)
  have hcaret : ComparatorText "^ 0.2.3".toList ⟨.caret, .of (.patch 0 2 3 false)⟩ :=
    .mk (List.mem_singleton_self _) hsign htext
  have hfirst : AlternativeText "^ 0.2.3 ".toList
      (.comparators [⟨.caret, .of (.patch 0 2 3 false)⟩]) :=
    .comparators (@Separated.cons _ _ [] _ [' '] _ _ isBlank_nil hcaret (.inr ⟨[], rfl⟩)
      (.blank isBlank_nil.cons))
  have hwords : Separated Eq " 2 - 3.x".toList ["2".toList, ['-'], "3.x".toList] :=
    separated_words (by rfl)
  have hsecond : AlternativeText " 2 - 3.x".toList
      (.hyphen (.of (.major 2)) (.of (.major 3))) :=
    .hyphen hwords (partialOf_eq_some_iff.mp (by rfl)) (partialOf_eq_some_iff.mp (by rfl))
  exact .or hfirst (.one hsecond)

/-- What it admits is told from what it says. -/
theorem meaning_caret : ∃ range, parseRange "^ 0.2.3 || 2 - 3.x" = some range ∧
    range.admits ⟨0, 2, 9⟩ = true ∧ range.admits ⟨0, 3, 0⟩ = false ∧
      range.admits ⟨3, 9, 9⟩ = true := by
  have h : parseRange "^ 0.2.3 || 2 - 3.x" = some ⟨[⟨some ⟨⟨0, 2, 3, true⟩, true⟩,
      some ⟨⟨0, 3, 0, false⟩, false⟩⟩, ⟨some ⟨⟨2, 0, 0, false⟩, true⟩,
      some ⟨⟨4, 0, 0, false⟩, false⟩⟩]⟩ := by rfl
  have hmeaning := (admits_iff_meaning h).2 _ caret_text
  refine ⟨_, h, (hmeaning _).mpr ⟨_, List.mem_cons_self, ?_⟩, ?_,
    (hmeaning _).mpr ⟨_, List.mem_cons_of_mem _ List.mem_cons_self, ?_⟩⟩
  · intro c hc
    rw [List.mem_singleton.mp hc]
    exact ⟨.inr ⟨rfl, .inr ⟨rfl, by decide⟩⟩, rfl, fun _ => ⟨rfl, fun hb => absurd hb (by decide)⟩⟩
  · rw [Bool.eq_false_iff]
    intro hadmits
    obtain ⟨a, hmem, hholds⟩ := (hmeaning _).mp hadmits
    rcases List.mem_pair.mp hmem with rfl | rfl
    · obtain ⟨-, -, hkeeps⟩ := hholds _ (List.mem_singleton_self _)
      exact absurd (hkeeps rfl).1 (by decide)
    · exact absurd hholds.1 (show ¬ 2 ≤ 0 by decide)
  · exact ⟨show 2 ≤ 3 by decide, show ¬ 3 < 3 by decide⟩

end RuntimeVersions
end OpenstackPlatform
