import OpenstackPlatform.Library.Text

/-!
# Lines and escapes of texts

The methods of `str` that readers of line formats use, on texts of code points.

* `isSpace`, `strip`, `isLineBreak`, `splitLines`: `str.isspace`, `str.strip`, `str.splitlines`.
* `splitLines_append`, `lastLines`: lines after a line feed, and the last lines.
* `replacePair`: `str.replace` of a text of two code points by one.
* `escape`, `unescape_escape`: a character marked by another one, and doubled marks.
* `hasBareMark`, `hasBareMark_escape`: a mark before anything but the two that may follow it.
-/

namespace OpenstackPlatform
namespace Library
namespace Text

/-! ## Lines -/

/-- `str.isspace`, of one code point. -/
def isSpace (n : Nat) : Bool :=
  (9 ≤ n && n ≤ 13) || (28 ≤ n && n ≤ 32) || n == 0x85 || n == 0xA0 || n == 0x1680 ||
    (0x2000 ≤ n && n ≤ 0x200A) || n == 0x2028 || n == 0x2029 || n == 0x202F || n == 0x205F ||
    n == 0x3000

/-- `str.strip` -/
def strip (text : Text) : Text := ((text.dropWhile isSpace).reverse.dropWhile isSpace).reverse

theorem strip_of_plain {t : Text} (h : ∀ c ∈ t, isSpace c = false) : strip t = t := by
  have hdrop : ∀ l : Text, (∀ c ∈ l, isSpace c = false) → l.dropWhile isSpace = l := by
    intro l hl
    cases l with
    | nil => rfl
    | cons c l => rw [List.dropWhile_cons_of_neg (Bool.eq_false_iff.mp (hl c List.mem_cons_self))]
  rw [strip, hdrop t h, hdrop t.reverse fun c hc => h c (List.mem_reverse.mp hc),
    List.reverse_reverse]

/-- A text that starts with no blank keeps its start. -/
theorem exists_strip_cons {c : Nat} (hc : isSpace c = false) (t : Text) :
    ∃ rest, strip (c :: t) = c :: rest := by
  have hneg := Bool.eq_false_iff.mp hc
  rw [strip, List.dropWhile_cons_of_neg hneg, List.reverse_cons, List.dropWhile_append]
  split
  · refine ⟨[], ?_⟩
    rw [List.dropWhile_cons_of_neg hneg]
    rfl
  · refine ⟨(t.reverse.dropWhile isSpace).reverse, ?_⟩
    rw [List.reverse_append]
    rfl

/-- A code point at which `str.splitlines` ends a line. -/
def isLineBreak (n : Nat) : Bool :=
  (10 ≤ n && n ≤ 13) || (28 ≤ n && n ≤ 30) || n == 0x85 || n == 0x2028 || n == 0x2029

/-- `str.splitlines`: a carriage return and a line feed end one line. -/
@[grind =] def splitLines : Text → List Text
  | [] => []
  | 13 :: 10 :: rest => [] :: splitLines rest
  | c :: rest =>
    if isLineBreak c then [] :: splitLines rest
    else
      match splitLines rest with
      | [] => [[c]]
      | line :: lines => (c :: line) :: lines

/-- A line has no line break. -/
theorem isLineBreak_of_mem_splitLines {t : Text} : ∀ line ∈ splitLines t, ∀ c ∈ line,
    isLineBreak c = false := by
  fun_induction splitLines t with
  | case1 =>
    intro line h
    cases h
  | case2 rest ih =>
    intro line h
    rcases List.mem_cons.mp h with rfl | h
    · intro c hc
      cases hc
    · exact ih line h
  | case3 c rest _ hbreak ih =>
    intro line h
    rcases List.mem_cons.mp h with rfl | h
    · intro c hc
      cases hc
    · exact ih line h
  | case4 c rest _ hbreak hnone ih =>
    intro line h d hd
    rw [List.mem_singleton.mp h, List.mem_singleton] at hd
    rw [hd]
    exact Bool.eq_false_iff.mpr hbreak
  | case5 c rest _ hbreak first lines heq ih =>
    rw [heq] at ih
    intro line h
    rcases List.mem_cons.mp h with rfl | h
    · intro d hd
      rcases List.mem_cons.mp hd with rfl | hd
      · exact Bool.eq_false_iff.mpr hbreak
      · exact ih first List.mem_cons_self d hd
    · exact ih line (List.mem_cons_of_mem _ h)

/-- A text without line breaks is one line. -/
theorem splitLines_of_plain {c : Nat} {t : Text} (h : ∀ d ∈ c :: t, isLineBreak d = false) :
    splitLines (c :: t) = [c :: t] := by
  induction t generalizing c with
  | nil =>
    have hc := h c List.mem_cons_self
    rw [splitLines, if_neg (Bool.eq_false_iff.mp hc)]
    · rfl
    · rintro rest rfl
      cases hc
  | cons d t ih =>
    have hc := h c List.mem_cons_self
    rw [splitLines, if_neg (Bool.eq_false_iff.mp hc),
      ih fun e he => h e (List.mem_cons_of_mem _ he)]
    rintro rest rfl
    cases hc

theorem splitLines_break {c : Nat} {rest : Text} (h : isLineBreak c = true)
    (hpair : ∀ r, c = 13 → rest ≠ 10 :: r) : splitLines (c :: rest) = [] :: splitLines rest := by
  rw [splitLines, if_pos h]
  rintro r rfl rfl
  exact hpair r rfl rfl

/-- A code point that ends no line is the first of the first line. -/
theorem splitLines_plain {c : Nat} {rest line : Text} {lines : List Text}
    (h : isLineBreak c = false) (hrest : splitLines rest = line :: lines) :
    splitLines (c :: rest) = (c :: line) :: lines := by
  rw [splitLines, if_neg (Bool.eq_false_iff.mp h), hrest]
  rintro r rfl rfl
  cases h

theorem splitLines_ne_nil {t : Text} (h : t ≠ []) : splitLines t ≠ [] := by
  fun_induction splitLines t with
  | case1 => exact absurd rfl h
  | _ => exact List.cons_ne_nil _ _

/-- Lines that follow others stay apart from them behind a code point that ends no line. -/
theorem splitLines_plain_append {c : Nat} {rest u : Text} (h : isLineBreak c = false)
    (hrest : splitLines (rest ++ 10 :: u) = splitLines (rest ++ [10]) ++ splitLines u) :
    splitLines (c :: (rest ++ 10 :: u)) = splitLines (c :: (rest ++ [10])) ++ splitLines u := by
  obtain ⟨line, lines, hfirst⟩ := List.exists_cons_of_ne_nil
    (splitLines_ne_nil (List.append_ne_nil_of_right_ne_nil rest (List.cons_ne_nil 10 [])))
  rw [hfirst, List.cons_append] at hrest
  rw [splitLines_plain h hrest, splitLines_plain h hfirst, List.cons_append]

/-- A line feed ends a line, whatever follows it. -/
theorem splitLines_append (t u : Text) :
    splitLines (t ++ 10 :: u) = splitLines (t ++ [10]) ++ splitLines u := by
  fun_induction splitLines t with
  | case1 => rfl
  | case2 rest ih =>
    rw [List.cons_append, List.cons_append, List.cons_append, List.cons_append, splitLines, ih,
      splitLines, List.cons_append]
  | case3 c rest hpair hbreak ih =>
    by_cases hreturn : c = 13 ∧ rest = []
    · obtain ⟨rfl, rfl⟩ := hreturn
      rfl
    · -- the line feed is not the second half of a pair
      have hnone : ∀ (v r : Text), c = 13 → rest ++ 10 :: v ≠ 10 :: r := by
        rintro v r rfl heq
        cases rest with
        | nil => exact hreturn ⟨rfl, rfl⟩
        | cons d rest => exact hpair rest rfl (by rw [(List.cons.inj heq).1])
      rw [List.cons_append, List.cons_append, splitLines_break hbreak (hnone u),
        splitLines_break hbreak (hnone []), ih, List.cons_append]
  | case4 c rest hpair hbreak hnone ih =>
    exact splitLines_plain_append (Bool.eq_false_iff.mpr hbreak) ih
  | case5 c rest hpair hbreak line lines heq ih =>
    exact splitLines_plain_append (Bool.eq_false_iff.mpr hbreak) ih

/-- A text has at least as many lines as line feeds. -/
theorem count_le_length_splitLines (t : Text) : t.count 10 ≤ (splitLines t).length := by
  fun_induction splitLines t with
  | case1 => exact Nat.le_refl 0
  | case2 rest ih =>
    rw [List.count_cons_of_ne (by decide), List.count_cons_self, List.length_cons]
    omega
  | case3 c rest hpair hbreak ih =>
    have := List.count_cons (a := 10) (b := c) (l := rest)
    rw [List.length_cons]
    split at this <;> omega
  | case4 c rest hpair hbreak hnone ih =>
    have hc : c ≠ 10 := by
      rintro rfl
      exact hbreak (by decide)
    rw [List.count_cons_of_ne hc]
    rw [hnone, List.length_nil] at ih
    omega
  | case5 c rest hpair hbreak line lines heq ih =>
    have hc : c ≠ 10 := by
      rintro rfl
      exact hbreak (by decide)
    rw [List.count_cons_of_ne hc]
    rw [heq] at ih
    exact ih

/-- `items[-n:]`, where `-0` is `0`. -/
def lastLines (n : Nat) (items : List Text) : List Text :=
  if n = 0 then items else items.drop (items.length - n)

/-- What stands before enough items does not matter. -/
theorem lastLines_append {n : Nat} {items : List Text} (h : n ≤ items.length) (hn : 0 < n)
    (before : List Text) : lastLines n (before ++ items) = lastLines n items := by
  rw [lastLines, if_neg (by omega), lastLines, if_neg (by omega), List.length_append,
    Nat.add_sub_assoc h, List.drop_append, List.drop_eq_nil_of_le (by omega), List.nil_append]
  congr 1
  omega

/-! ## Escapes -/

/-- `text.replace(ab, d)` for a text `ab` of two code points. -/
def replacePair (a b d : Nat) : Text → Text
  | [] => []
  | [x] => [x]
  | x :: y :: rest =>
    if x = a ∧ y = b then d :: replacePair a b d rest else x :: replacePair a b d (y :: rest)

/-- Each mark and each quote with a mark before it. -/
def escape (mark quote : Nat) (value : Text) : Text :=
  value.flatMap fun c => if c = mark ∨ c = quote then [mark, c] else [c]

/-- Marked quotes are taken as quotes, then doubled marks as marks. -/
def unescape (mark quote : Nat) (text : Text) : Text :=
  replacePair mark mark mark (replacePair mark quote quote text)

/-- A mark stands before something other than a mark or a quote, or at the end. -/
def hasBareMark (mark quote : Nat) : Text → Bool
  | [] => false
  | c :: rest =>
    (c == mark && !(rest.head?.any fun d => d == mark || d == quote)) || hasBareMark mark quote rest

theorem mem_of_mem_replacePair {a b d c : Nat} {t : Text} (h : c ∈ replacePair a b d t) :
    c ∈ t ∨ c = d := by
  fun_induction replacePair a b d t with
  | case1 => exact .inl h
  | case2 x => exact .inl h
  | case3 x y rest _ ih =>
    rcases List.mem_cons.mp h with rfl | h
    · exact .inr rfl
    · exact (ih h).imp_left fun hm => List.mem_cons_of_mem _ (List.mem_cons_of_mem _ hm)
  | case4 x y rest _ ih =>
    rcases List.mem_cons.mp h with rfl | h
    · exact .inl List.mem_cons_self
    · exact (ih h).imp_left (List.mem_cons_of_mem _)

section Escape

variable {mark quote : Nat}

theorem replacePair_cons_of_ne {a b d x : Nat} (hx : x ≠ a) (t : Text) :
    replacePair a b d (x :: t) = x :: replacePair a b d t := by
  cases t with
  | nil => rfl
  | cons y t => rw [replacePair, if_neg fun h => hx h.1]

theorem replacePair_cons_cons_of_ne {a b d y : Nat} (hy : y ≠ b) (t : Text) :
    replacePair a b d (a :: y :: t) = a :: replacePair a b d (y :: t) := by
  rw [replacePair, if_neg fun h => hy h.2]

theorem escape_cons (c : Nat) (value : Text) :
    escape mark quote (c :: value) =
      (if c = mark ∨ c = quote then [mark, c] else [c]) ++ escape mark quote value := rfl

theorem escape_cons_marked {c : Nat} (h : c = mark ∨ c = quote) (value : Text) :
    escape mark quote (c :: value) = mark :: c :: escape mark quote value := by
  rw [escape_cons, if_pos h, List.cons_append, List.singleton_append]

theorem escape_cons_plain {c : Nat} (h : ¬ (c = mark ∨ c = quote)) (value : Text) :
    escape mark quote (c :: value) = c :: escape mark quote value := by
  rw [escape_cons, if_neg h, List.singleton_append]

theorem mem_of_mem_escape {c : Nat} {value : Text} (h : c ∈ escape mark quote value) :
    c ∈ value ∨ c = mark := by
  obtain ⟨d, hd, hc⟩ := List.mem_flatMap.mp h
  split at hc
  · rcases List.mem_cons.mp hc with rfl | hc
    · exact .inr rfl
    · exact .inl (List.mem_singleton.mp hc ▸ hd)
  · exact .inl (List.mem_singleton.mp hc ▸ hd)

/-- After an unmarked mark, an escaped text is read as if nothing stood before it: it does not
start with a quote. -/
theorem replacePair_mark_escape (hmq : mark ≠ quote) (value : Text) :
    replacePair mark quote quote (mark :: escape mark quote value) =
      mark :: replacePair mark quote quote (escape mark quote value) := by
  cases value with
  | nil => rfl
  | cons c value =>
    by_cases h : c = mark ∨ c = quote
    · rw [escape_cons_marked h, replacePair_cons_cons_of_ne hmq]
    · rw [escape_cons_plain h, replacePair_cons_cons_of_ne fun hc => h (.inr hc)]

/-- With the quotes read, the marks are still doubled. -/
theorem replacePair_escape (hmq : mark ≠ quote) (value : Text) :
    replacePair mark quote quote (escape mark quote value) =
      value.flatMap fun c => if c = mark then [mark, mark] else [c] := by
  induction value with
  | nil => rfl
  | cons c value ih =>
    rw [List.flatMap_cons]
    by_cases hc : c = mark
    · subst hc
      rw [escape_cons_marked (.inl rfl), replacePair_cons_cons_of_ne hmq,
        replacePair_mark_escape hmq, ih, if_pos rfl]
      rfl
    · rw [if_neg hc]
      by_cases hq : c = quote
      · subst hq
        rw [escape_cons_marked (.inr rfl), replacePair, if_pos ⟨rfl, rfl⟩, ih]
        rfl
      · rw [escape_cons_plain (by tauto), replacePair_cons_of_ne hc, ih]
        rfl

/-- An escaped text is read back. -/
theorem unescape_escape (hmq : mark ≠ quote) (value : Text) :
    unescape mark quote (escape mark quote value) = value := by
  rw [unescape, replacePair_escape hmq]
  induction value with
  | nil => rfl
  | cons c value ih =>
    rw [List.flatMap_cons]
    by_cases hc : c = mark
    · rw [if_pos hc, List.cons_append, List.singleton_append, replacePair, if_pos ⟨rfl, rfl⟩, ih,
        hc]
    · rw [if_neg hc, List.singleton_append, replacePair_cons_of_ne hc, ih]

theorem hasBareMark_cons (c : Nat) (rest : Text) :
    hasBareMark mark quote (c :: rest) =
      ((c == mark && !(rest.head?.any fun d => d == mark || d == quote)) ||
        hasBareMark mark quote rest) := rfl

/-- An escaped text starts with a mark or a quote exactly when the text does. -/
theorem head?_escape (value : Text) :
    ((escape mark quote value).head?.any fun d => d == mark || d == quote) =
      value.head?.any fun d => d == mark || d == quote := by
  cases value with
  | nil => rfl
  | cons c value =>
    by_cases h : c = mark ∨ c = quote
    · rw [escape_cons_marked h]
      have hc : (c == mark || c == quote) = true := by simpa using h
      simp [hc]
    · rw [escape_cons_plain h]
      rfl

/-- Doubling a mark does not help it: the second one stands before what the first one did. -/
theorem hasBareMark_escape (hmq : mark ≠ quote) (value : Text) :
    hasBareMark mark quote (escape mark quote value) = hasBareMark mark quote value := by
  induction value with
  | nil => rfl
  | cons c value ih =>
    by_cases hc : c = mark
    · subst hc
      rw [escape_cons_marked (.inl rfl), hasBareMark_cons, hasBareMark_cons, head?_escape, ih,
        hasBareMark_cons]
      simp
    · have hbeq : (c == mark) = false := beq_eq_false_iff_ne.mpr hc
      by_cases hq : c = quote
      · subst hq
        rw [escape_cons_marked (.inr rfl), hasBareMark_cons, hasBareMark_cons, ih,
          hasBareMark_cons, hbeq]
        simp
      · rw [escape_cons_plain (by tauto), hasBareMark_cons, hasBareMark_cons, ih, hbeq]
        simp

/-- Where no mark is bare, each one stands before a mark or a quote. -/
theorem hasBareMark_eq_false_iff {t : Text} :
    hasBareMark mark quote t = false ↔
      ∀ i, t[i]? = some mark → t[i + 1]? = some mark ∨ t[i + 1]? = some quote := by
  induction t with
  | nil =>
    refine ⟨fun _ i hi => ?_, fun _ => rfl⟩
    rw [List.getElem?_nil] at hi
    cases hi
  | cons c t ih =>
    have hhead : (t.head?.any fun d => d == mark || d == quote) = true ↔
        t[0]? = some mark ∨ t[0]? = some quote := by
      rw [← List.head?_eq_getElem?]
      cases t.head? with
      | none => simp
      | some d => simp
    rw [hasBareMark_cons, Bool.or_eq_false_iff, ih]
    constructor
    · rintro ⟨hc, hrest⟩ i hi
      cases i with
      | zero =>
        obtain rfl : c = mark := by simpa using hi
        rw [beq_self_eq_true, Bool.true_and, Bool.not_eq_false'] at hc
        exact hhead.mp hc
      | succ i => exact hrest i hi
    · intro h
      refine ⟨?_, fun i hi => h (i + 1) hi⟩
      by_cases hc : c = mark
      · rw [hhead.mpr (h 0 (by rw [hc]; rfl)), Bool.not_true, Bool.and_false]
      · rw [beq_eq_false_iff_ne.mpr hc, Bool.false_and]

end Escape

end Text
end Library
end OpenstackPlatform
