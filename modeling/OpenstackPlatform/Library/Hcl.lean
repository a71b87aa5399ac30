import OpenstackPlatform.Library.JsonText
import OpenstackPlatform.Library.Lines

/-!
# HCL, line by line

A reader of HCL texts without comments.  Outside a heredoc a line is a sequence of words, symbols
and quoted strings, and no string goes on after the end of its line; inside a heredoc a line is
text, until the line that is the heredoc's marker.  `${` and `%{` start a template in both.  A
template, an escape by number and a string without end are not read further: they make their line
unreadable.

A template text is one in which some pieces stand for values.  It is read as if a value never left
the string or the word it stands in, whatever it contains, and the main question is when the text
that is written is read in the same way.

* `Token`, `Mode`, `run`, `read`: the reader.
* `InertText`: nothing that ends a string or starts a template, with `run_str_of_inert`.
* `PlainText`: no sigil either, so that it may be followed by anything.
* `Piece`, `Line`, `Line.run`: templates and what they are meant to say.
* `Line.Fits`, `run_text_of_fits`: the written line is read as it is meant.
* `Mode.shape`, `Token.shape`, `shape_tokens_of_alike`: the structure does not depend on the values.
-/

namespace OpenstackPlatform
namespace Library
namespace Hcl

/-! ## Tokens -/

/-- What a text is read as. -/
inductive Token where
  /-- a name, a number or a keyword -/
  | word (text : List Char)
  /-- a quoted string, by its value -/
  | str (value : List Char)
  | symbol (c : Char)
  | newline
  /-- the start of a heredoc -/
  | heredoc (marker : List Char)
  /-- a line of a heredoc -/
  | line (text : List Char)
  /-- the line that ends a heredoc -/
  | heredocEnd
  | unreadable
  deriving DecidableEq, Repr

/-- Where the reader is in a line. -/
inductive Mode where
  | blank
  | word (text : List Char)
  /-- in a string; `sigil` says that the last character was `$` or `%` -/
  | str (value : List Char) (sigil : Bool)
  /-- after a backslash -/
  | escape (value : List Char)
  /-- after `<` -/
  | angle
  /-- after `<<` -/
  | marker (text : List Char)
  | broken
  deriving DecidableEq, Repr

/-- The characters of names and numbers. -/
def isWordChar (c : Char) : Bool := c.isAlphanum || c == '_' || c == '-'

/-- `$` and `%` start a template when a brace follows. -/
def isSigil (c : Char) : Bool := c == '$' || c == '%'

/-- The character that an escape stands for. -/
def unescape (c : Char) : Option Char :=
  if c = '"' then some '"'
  else if c = '\\' then some '\\'
  else if c = 'n' then some '\n'
  else if c = 'r' then some '\r'
  else if c = 't' then some '\t'
  else none

/-! ## The reader -/

/-- One character outside strings and words. -/
def start (c : Char) : Mode × List Token :=
  if c = ' ' ∨ c = '\t' then (.blank, [])
  else if c = '"' then (.str [] false, [])
  else if c = '<' then (.angle, [])
  else if c = '#' ∨ c = '/' then (.broken, [])
  else if isWordChar c then (.word [c], [])
  else (.blank, [.symbol c])

/-- One character. -/
@[grind =] def step : Mode → Char → Mode × List Token
  | .blank, c => start c
  | .word w, c =>
    if isWordChar c then (.word (w ++ [c]), []) else ((start c).1, .word w :: (start c).2)
  | .str v sigil, c =>
    if c = '"' then (.blank, [.str v])
    else if c = '\\' then (.escape v, [])
    else if c = '\x7b' ∧ sigil = true then (.broken, [])
    else (.str (v ++ [c]) (isSigil c), [])
  | .escape v, c =>
    match unescape c with
    | some d => (.str (v ++ [d]) false, [])
    | none => (.broken, [])
  | .angle, c => if c = '<' then (.marker [], []) else ((start c).1, .symbol '<' :: (start c).2)
  | .marker m, c =>
    if isWordChar c = true ∧ ¬ (m = [] ∧ c = '-') then (.marker (m ++ [c]), []) else (.broken, [])
  | .broken, _ => (.broken, [])

/-- The characters of a line, one after the other. -/
def run : Mode → List Char → Mode × List Token
  | m, [] => (m, [])
  | m, c :: t => ((run (step m c).1 t).1, (step m c).2 ++ (run (step m c).1 t).2)

/-- The end of a line: what was not finished, and the marker of the heredoc that starts. -/
def finish : Mode → List Token × Option (List Char)
  | .blank => ([.newline], none)
  | .word w => ([.word w, .newline], none)
  | .angle => ([.symbol '<', .newline], none)
  | .marker m => if m = [] then ([.unreadable, .newline], none) else ([.heredoc m], some m)
  | .str _ _ | .escape _ | .broken => ([.unreadable, .newline], none)

/-- `${` or `%{` is somewhere in a text. -/
def introduces (t : List Char) : Bool :=
  t.tails.any fun rest => ['$', '\x7b'].isPrefixOf rest || ['%', '\x7b'].isPrefixOf rest

/-- A line, in a heredoc or outside. -/
def readLine (heredoc : Option (List Char)) (l : List Char) : List Token × Option (List Char) :=
  match heredoc with
  | none =>
    let r := run .blank l
    (r.2 ++ (finish r.1).1, (finish r.1).2)
  | some m =>
    if l.dropWhile (fun c => c == ' ' || c == '\t') = m then ([.heredocEnd], none)
    else ([if introduces l then .unreadable else .line l], some m)

/-- Lines, one after the other. -/
def readLines : Option (List Char) → List (List Char) → List Token
  | _, [] => []
  | h, l :: ls => (readLine h l).1 ++ readLines (readLine h l).2 ls

/-- A text. -/
def read (t : List Char) : List Token := readLines none (t.splitOn '\n')

theorem run_append (m : Mode) (s t : List Char) :
    run m (s ++ t) = ((run (run m s).1 t).1, (run m s).2 ++ (run (run m s).1 t).2) := by
  induction s generalizing m with
  | nil => rfl
  | cons c s ih => rw [List.cons_append, run, run, ih, List.append_assoc]

/-! ## Inert text -/

/-- Nothing in a text ends a quoted string or starts a template in it. -/
structure InertText (s : List Char) : Prop where
  quote : '"' ∉ s
  backslash : '\\' ∉ s
  newline : '\n' ∉ s
  template : introduces s = false

/-- A text that is inert before every other text. -/
structure PlainText (s : List Char) : Prop where
  nonempty : s ≠ []
  quote : '"' ∉ s
  backslash : '\\' ∉ s
  newline : '\n' ∉ s
  sigil : ∀ c ∈ s, isSigil c = false

theorem introduces_cons (c : Char) (s : List Char) :
    introduces (c :: s) = ((isSigil c && s.head? == some '\x7b') || introduces s) := by
  have hhead : (['$', '\x7b'].isPrefixOf (c :: s) || ['%', '\x7b'].isPrefixOf (c :: s)) =
      (isSigil c && s.head? == some '\x7b') := by
    cases s with
    | nil => simp [List.isPrefixOf, isSigil]
    | cons d s =>
      rw [Bool.eq_iff_iff]
      simp only [List.isPrefixOf, isSigil, Bool.or_eq_true, Bool.and_eq_true, beq_iff_eq,
        List.head?_cons, Option.some.injEq, and_true]
      constructor
      · rintro (⟨rfl, rfl⟩ | ⟨rfl, rfl⟩) <;> simp
      · rintro ⟨rfl | rfl, rfl⟩ <;> simp
  rw [introduces, List.tails_cons, List.any_cons, hhead, introduces]

theorem introduces_of_sigil : ∀ {s : List Char}, (∀ c ∈ s, isSigil c = false) →
    introduces s = false
  | [], _ => rfl
  | c :: s, h => by
    rw [introduces_cons, h c List.mem_cons_self,
      introduces_of_sigil fun d hd => h d (List.mem_cons_of_mem _ hd)]
    rfl

/-- No template reaches over the border of two texts when the first one ends in no sigil. -/
theorem introduces_append : ∀ {s t : List Char}, (∀ c ∈ s.getLast?, isSigil c = false) →
    introduces (s ++ t) = (introduces s || introduces t)
  | [], t, _ => rfl
  | [c], t, h => by
    have hc : isSigil c = false := h c rfl
    rw [List.singleton_append, introduces_cons, introduces_cons, hc]
    rfl
  | c :: d :: s, t, h => by
    have ih : introduces ((d :: s) ++ t) = (introduces (d :: s) || introduces t) :=
      introduces_append fun e he => h e (by rw [List.getLast?_cons_cons]; exact he)
    rw [List.cons_append, introduces_cons, ih, introduces_cons c (d :: s), Bool.or_assoc]
    rfl

variable {s : List Char}

theorem PlainText.inert (h : PlainText s) : InertText s :=
  ⟨h.quote, h.backslash, h.newline, introduces_of_sigil h.sigil⟩

/-- A word is plain. -/
theorem plainText_of_word (hne : s ≠ []) (h : ∀ c ∈ s, isWordChar c = true) : PlainText s where
  nonempty := hne
  quote hc := absurd (h _ hc) (by decide)
  backslash hc := absurd (h _ hc) (by decide)
  newline hc := absurd (h _ hc) (by decide)
  sigil c hc := by
    rw [isSigil, Bool.or_eq_false_iff, beq_eq_false_iff_ne, beq_eq_false_iff_ne]
    constructor
    · rintro rfl
      cases h _ hc
    · rintro rfl
      cases h _ hc

/-- Text that does not start a template stays in its string. -/
theorem run_str : ∀ {s v : List Char} {sigil : Bool}, '"' ∉ s → '\\' ∉ s →
    introduces s = false → (sigil = true → s.head? ≠ some '\x7b') →
    run (.str v sigil) s = (.str (v ++ s) ((s.getLast?.map isSigil).getD sigil), [])
  | [], v, sigil, _, _, _, _ => by simp [run]
  | c :: s, v, sigil, hquote, hslash, hintro, hhead => by
    rw [List.mem_cons, not_or] at hquote hslash
    rw [introduces_cons, Bool.or_eq_false_iff] at hintro
    have hbrace : ¬ (c = '\x7b' ∧ sigil = true) := by
      rintro ⟨rfl, hsigil⟩
      exact hhead hsigil rfl
    have hnext : isSigil c = true → s.head? ≠ some '\x7b' := by
      intro hc hs
      rw [hc, hs] at hintro
      cases hintro.1
    have ih : Hcl.run (.str (v ++ [c]) (isSigil c)) s = _ :=
      run_str hquote.2 hslash.2 hintro.2 hnext
    rw [run, step, if_neg (Ne.symm hquote.1), if_neg (Ne.symm hslash.1), if_neg hbrace, ih,
      List.append_assoc, List.singleton_append]
    cases s with
    | nil => rfl
    | cons d s =>
      rw [List.getLast?_cons_cons]
      obtain ⟨e, he⟩ : ∃ e, (d :: s).getLast? = some e :=
        ⟨_, List.getLast?_eq_some_getLast (by simp)⟩
      rw [he]
      rfl

/-- Inert text is the value of the string that it is put into. -/
theorem run_str_of_inert {v : List Char} (h : InertText s) :
    ∃ sigil, run (.str v false) s = (.str (v ++ s) sigil, []) :=
  ⟨_, run_str h.quote h.backslash h.template (by simp)⟩

/-- A quoted inert text is read as itself. -/
theorem run_quoted (h : InertText s) (t : List Char) :
    run .blank ('"' :: s ++ '"' :: t) = ((run .blank t).1, .str s :: (run .blank t).2) := by
  obtain ⟨sigil, hs⟩ := run_str_of_inert (v := []) h
  have hopen : run .blank ('"' :: s) = (.str s sigil, []) := by
    rw [run, show step .blank '"' = (.str [] false, []) from rfl, hs]
    rfl
  have hclose : step (.str s sigil) '"' = (.blank, [.str s]) := by simp [step]
  rw [run_append, hopen, run, hclose]
  rfl

theorem run_str_of_plain {v : List Char} {sigil : Bool} (h : PlainText s)
    (hbrace : sigil = true → s.head? ≠ some '\x7b') :
    run (.str v sigil) s = (.str (v ++ s) false, []) := by
  rw [run_str h.quote h.backslash (introduces_of_sigil h.sigil) hbrace,
    List.getLast?_eq_some_getLast h.nonempty, Option.map_some, Option.getD_some,
    h.sigil _ (List.getLast_mem h.nonempty)]

theorem run_word : ∀ {s w : List Char}, (∀ c ∈ s, isWordChar c = true) →
    run (.word w) s = (.word (w ++ s), [])
  | [], w, _ => by simp [run]
  | c :: s, w, h => by
    rw [run, step, if_pos (h c List.mem_cons_self),
      run_word fun d hd => h d (List.mem_cons_of_mem _ hd), List.append_assoc]
    rfl

theorem start_of_isWordChar {c : Char} (h : isWordChar c = true) : start c = (.word [c], []) := by
  have hne : ∀ d, isWordChar d = false → c ≠ d := by
    rintro d hd rfl
    cases h.symm.trans hd
  rw [start, if_neg (not_or.mpr ⟨hne ' ' (by decide), hne '\t' (by decide)⟩),
    if_neg (hne '"' (by decide)), if_neg (hne '<' (by decide)),
    if_neg (not_or.mpr ⟨hne '#' (by decide), hne '/' (by decide)⟩), if_pos h]

/-- A word starts after a blank. -/
theorem run_blank_word (hne : s ≠ []) (h : ∀ c ∈ s, isWordChar c = true) :
    run .blank s = (.word s, []) := by
  cases s with
  | nil => exact absurd rfl hne
  | cons c s =>
    rw [run, step, start_of_isWordChar (h c List.mem_cons_self),
      run_word fun d hd => h d (List.mem_cons_of_mem _ hd)]
    rfl

/-! ## JSON strings -/

open JsonText in
/-- A string as `json.dumps` writes it. -/
def jsonText (s : String) : List Char := (dumpString (Text.ofString s)).map Char.ofNat

theorem ofNat_toNat_map (s : List Char) : (s.map Char.toNat).map Char.ofNat = s := by
  rw [List.map_map, show Char.ofNat ∘ Char.toNat = id from funext Char.ofNat_toNat, List.map_id]

/-- Printable plain text is written as it is. -/
theorem jsonText_of_plain {s : String} (h : ∀ c ∈ s.toList, 32 ≤ c.toNat ∧ c.toNat < 127)
    (hquote : '"' ∉ s.toList) (hslash : '\\' ∉ s.toList) :
    jsonText s = '"' :: s.toList ++ ['"'] := by
  have hescape : ∀ {l : List Char}, (∀ c ∈ l, 32 ≤ c.toNat ∧ c.toNat < 127) → '"' ∉ l → '\\' ∉ l →
      (l.map Char.toNat).flatMap JsonText.escape = l.map Char.toNat := by
    intro l hl hq hb
    induction l with
    | nil => rfl
    | cons c l ih =>
      rw [List.mem_cons, not_or] at hq hb
      have hc := hl c List.mem_cons_self
      have h34 : c.toNat ≠ 34 := fun h => hq.1 (Char.toNat_inj.mp h.symm)
      have h92 : c.toNat ≠ 92 := fun h => hb.1 (Char.toNat_inj.mp h.symm)
      rw [List.map_cons, List.flatMap_cons, ih (fun d hd => hl d (List.mem_cons_of_mem _ hd)) hq.2
        hb.2, JsonText.escape, if_neg h34, if_neg h92, if_neg (by omega), if_neg (by omega),
        if_neg (by omega), if_neg (by omega), if_neg (by omega), if_pos hc]
      rfl
  rw [jsonText, JsonText.dumpString, Text.ofString, hescape h hquote hslash, List.cons_append,
    List.map_cons, List.map_append, ofNat_toNat_map]
  rfl

/-! ## Templates -/

/-- A piece of a template text. -/
inductive Piece where
  /-- what is written as it stands -/
  | lit (text : List Char)
  /-- a value, in a string or in a word -/
  | val (text : List Char)
  /-- a value as a JSON string -/
  | json (text : String)
  deriving DecidableEq, Repr

/-- The characters of a piece. -/
def Piece.text : Piece → List Char
  | lit t => t
  | val t => t
  | json s => jsonText s

/-- What a value does where it stands: it goes on with its string or its word, or starts a word. -/
def enter : Mode → List Char → Mode × List Token
  | .blank, s => (.word s, [])
  | .word w, s => (.word (w ++ s), [])
  | .str v _, s => (.str (v ++ s) false, [])
  | _, _ => (.broken, [])

/-- What a JSON string does where it stands. -/
def enterJson : Mode → List Char → Mode × List Token
  | .blank, s => (.blank, [.str s])
  | _, _ => (.broken, [])

/-- A piece, as it is meant. -/
def Piece.run (m : Mode) : Piece → Mode × List Token
  | lit t => Hcl.run m t
  | val t => enter m t
  | json s => enterJson m s.toList

/-- A line of a template. -/
abbrev Line := List Piece

namespace Line

/-- The characters of a line. -/
def text (l : Line) : List Char := l.flatMap Piece.text

/-- The pieces of a line, as they are meant. -/
def run : Mode → Line → Mode × List Token
  | m, [] => (m, [])
  | m, p :: l => ((run (p.run m).1 l).1, (p.run m).2 ++ (run (p.run m).1 l).2)

/-- What a line outside heredocs is meant to say. -/
def tokens (l : Line) : List Token := (run .blank l).2 ++ (finish (run .blank l).1).1

/-- The marker of the heredoc that a line starts. -/
def opens (l : Line) : Option (List Char) := (finish (run .blank l).1).2

end Line

/-- A value does where it stands what it is meant to do. -/
def Piece.Fits (m : Mode) : Piece → Prop
  | lit _ => True
  | val s =>
    match m with
    | .str _ sigil => PlainText s ∧ (sigil = true → s.head? ≠ some '\x7b')
    | .word _ => ∀ c ∈ s, isWordChar c = true
    | .blank => s ≠ [] ∧ ∀ c ∈ s, isWordChar c = true
    | _ => False
  | json s => m = .blank ∧ PlainText s.toList ∧ ∀ c ∈ s.toList, 32 ≤ c.toNat ∧ c.toNat < 127

variable {m : Mode}

theorem Piece.run_of_fits {p : Piece} (h : p.Fits m) : p.run m = Hcl.run m p.text := by
  cases p with
  | lit t => rfl
  | val s =>
    cases m with
    | str v sigil => exact (run_str_of_plain h.1 h.2).symm
    | word w => exact (run_word h).symm
    | blank => exact (run_blank_word h.1 h.2).symm
    | escape _ => exact h.elim
    | angle => exact h.elim
    | marker _ => exact h.elim
    | broken => exact h.elim
  | json s =>
    obtain ⟨rfl, hplain, hprint⟩ := h
    show (Mode.blank, [Token.str s.toList]) = Hcl.run .blank (jsonText s)
    rw [jsonText_of_plain hprint hplain.quote hplain.backslash, run_quoted hplain.inert]
    rfl

/-- Every value of a line does what it is meant to do. -/
def Line.Fits : Mode → Line → Prop
  | _, [] => True
  | m, p :: l => p.Fits m ∧ Fits (p.run m).1 l

/-- A line that fits is read as it is meant. -/
theorem run_text_of_fits : ∀ {l : Line} {m : Mode}, l.Fits m → Hcl.run m l.text = l.run m
  | [], _, _ => rfl
  | p :: l, m, h => by
    have hp := Piece.run_of_fits h.1
    have ih := run_text_of_fits h.2
    rw [Line.text, List.flatMap_cons, run_append, ← hp, Line.run]
    rw [Line.text] at ih
    rw [ih]

/-- A line outside heredocs: it is one line, it is read as it is meant, and it starts no heredoc. -/
structure Line.Reads (l : Line) : Prop where
  oneLine : '\n' ∉ l.text
  reading : readLine none l.text = (l.tokens, none)

theorem Line.reads_of_fits {l : Line} (hline : '\n' ∉ l.text) (h : l.Fits .blank)
    (hopens : l.opens = none) : l.Reads where
  oneLine := hline
  reading := by
    rw [Line.opens] at hopens
    rw [readLine]
    simp only [run_text_of_fits h, hopens]
    rfl

/-- Lines outside heredocs. -/
theorem readLines_text : ∀ {ls : List Line} (rest : List (List Char)), (∀ l ∈ ls, l.Reads) →
    readLines none (ls.map Line.text ++ rest) = ls.flatMap Line.tokens ++ readLines none rest
  | [], rest, _ => rfl
  | l :: ls, rest, h => by
    have hl := (h l List.mem_cons_self).reading
    have ih := readLines_text rest fun l' hl' => h l' (List.mem_cons_of_mem _ hl')
    rw [List.map_cons, List.cons_append, readLines, hl, ih, List.flatMap_cons, List.append_assoc]

/-- A line of a heredoc with a marker: it is one line, and it is text. -/
structure Line.Quiet (m : List Char) (l : Line) : Prop where
  oneLine : '\n' ∉ l.text
  marker : l.text.dropWhile (fun c => c == ' ' || c == '\t') ≠ m
  template : introduces l.text = false

/-- Lines of a heredoc. -/
theorem readLines_quiet {m : List Char} : ∀ {ls : List Line} (rest : List (List Char)),
    (∀ l ∈ ls, l.Quiet m) →
      readLines (some m) (ls.map Line.text ++ rest) =
        ls.map (fun l => Token.line l.text) ++ readLines (some m) rest
  | [], rest, _ => rfl
  | l :: ls, rest, h => by
    obtain ⟨-, hmarker, htemplate⟩ := h l List.mem_cons_self
    have ih := readLines_quiet rest fun l' hl' => h l' (List.mem_cons_of_mem _ hl')
    have hline : readLine (some m) l.text = ([.line l.text], some m) := by
      simp only [readLine, if_neg hmarker, htemplate, Bool.false_eq_true, if_false]
    rw [List.map_cons, List.cons_append, readLines, hline, ih, List.map_cons]
    rfl

/-- Text that a heredoc may hold in one of its lines. -/
def Piece.Calm (p : Piece) : Prop :=
  '\n' ∉ p.text ∧ introduces p.text = false ∧ ∀ c ∈ p.text.getLast?, isSigil c = false

instance : DecidablePred Piece.Calm := fun p =>
  inferInstanceAs (Decidable (_ ∧ _ ∧ ∀ c ∈ p.text.getLast?, isSigil c = false))

theorem Piece.calm_val (h : PlainText s) : (Piece.val s).Calm :=
  ⟨h.newline, introduces_of_sigil h.sigil, fun c hc => h.sigil c (List.mem_of_getLast? hc)⟩

theorem introduces_text_of_calm : ∀ {l : Line}, (∀ p ∈ l, p.Calm) → introduces l.text = false
  | [], _ => rfl
  | p :: l, h => by
    obtain ⟨-, hp, hlast⟩ := h p List.mem_cons_self
    have ih := introduces_text_of_calm fun q hq => h q (List.mem_cons_of_mem _ hq)
    rw [Line.text] at ih
    rw [Line.text, List.flatMap_cons, introduces_append hlast, hp, ih]
    rfl

theorem mem_dropWhile_of_mem {p : Char → Bool} {c : Char} (hc : p c = false) :
    ∀ {t : List Char}, c ∈ t → c ∈ t.dropWhile p
  | d :: t, h => by
    by_cases hd : p d = true
    · rw [List.dropWhile_cons_of_pos hd]
      obtain rfl | h := List.mem_cons.mp h
      · cases hc.symm.trans hd
      · exact mem_dropWhile_of_mem hc h
    · rwa [List.dropWhile_cons_of_neg hd]

/-- A line of calm pieces with a character that the marker lacks. -/
theorem Line.quiet_of_calm {m : List Char} {l : Line} (h : ∀ p ∈ l, p.Calm) {c : Char}
    (hmem : c ∈ l.text) (hblank : (c == ' ' || c == '\t') = false) (hc : c ∉ m) : l.Quiet m where
  oneLine hn := by
    obtain ⟨p, hp, hn⟩ := List.mem_flatMap.mp hn
    exact (h p hp).1 hn
  marker he := hc (he ▸ mem_dropWhile_of_mem hblank hmem)
  template := introduces_text_of_calm h

/-! ## The structure -/

/-- A token without what it says. -/
def Token.shape : Token → Token
  | word _ => word []
  | str _ => str []
  | line _ => line []
  | t => t

/-- A mode without what was read. -/
def Mode.shape : Mode → Mode
  | word _ => word []
  | str _ sigil => str [] sigil
  | escape _ => escape []
  | m => m

/-- Two results of the reader with the same structure. -/
def SameShape (r r' : Mode × List Token) : Prop :=
  r.1.shape = r'.1.shape ∧ r.2.map Token.shape = r'.2.map Token.shape

theorem SameShape.refl (r : Mode × List Token) : SameShape r r := ⟨rfl, rfl⟩

variable {m' : Mode}

theorem sameShape_step (h : m.shape = m'.shape) (c : Char) : SameShape (step m c) (step m' c) := by
  cases m <;> cases m' <;> simp only [Mode.shape, reduceCtorEq, Mode.str.injEq,
    Mode.marker.injEq, true_and] at h
  case blank.blank => exact .refl _
  case word.word w w' =>
    rw [step, step]
    split
    · exact ⟨rfl, rfl⟩
    · exact ⟨rfl, rfl⟩
  case str.str v sigil v' sigil' =>
    subst h
    rw [step, step]
    split_ifs
    · exact ⟨rfl, rfl⟩
    · exact ⟨rfl, rfl⟩
    · exact ⟨rfl, rfl⟩
    · exact ⟨rfl, rfl⟩
  case escape.escape v v' =>
    rw [step, step]
    cases unescape c with
    | none => exact ⟨rfl, rfl⟩
    | some d => exact ⟨rfl, rfl⟩
  case angle.angle => exact .refl _
  case marker.marker t t' =>
    subst h
    exact .refl _
  case broken.broken => exact .refl _

theorem sameShape_run : ∀ (t : List Char) {m m' : Mode}, m.shape = m'.shape →
    SameShape (run m t) (run m' t)
  | [], _, _, h => ⟨h, rfl⟩
  | c :: t, m, m', h => by
    obtain ⟨hmode, htokens⟩ := sameShape_step h c
    obtain ⟨hmode', htokens'⟩ := sameShape_run t hmode
    refine ⟨hmode', ?_⟩
    rw [run, run, List.map_append, List.map_append, htokens, htokens']

/-- Two pieces of the same kind. -/
inductive Piece.Alike : Piece → Piece → Prop
  | lit (t : List Char) : Alike (lit t) (lit t)
  | val (s t : List Char) : Alike (val s) (val t)
  | json (s t : String) : Alike (json s) (json t)

theorem Piece.Alike.run {p p' : Piece} (h : p.Alike p') (hm : m.shape = m'.shape) :
    SameShape (p.run m) (p'.run m') := by
  cases h with
  | lit t => exact sameShape_run t hm
  | val s t =>
    cases m <;> cases m' <;> simp only [Mode.shape, reduceCtorEq] at hm <;> exact ⟨rfl, rfl⟩
  | json s t =>
    cases m <;> cases m' <;> simp only [Mode.shape, reduceCtorEq] at hm <;> exact ⟨rfl, rfl⟩

/-- Two lines of one template. -/
abbrev Line.Alike (l l' : Line) : Prop := List.Forall₂ Piece.Alike l l'

theorem Line.Alike.run {l l' : Line} (h : l.Alike l') (hm : m.shape = m'.shape) :
    SameShape (l.run m) (l'.run m') := by
  induction h generalizing m m' with
  | nil => exact ⟨hm, rfl⟩
  | cons hp _ ih =>
    obtain ⟨hmode, htokens⟩ := hp.run hm
    obtain ⟨hmode', htokens'⟩ := ih hmode
    refine ⟨hmode', ?_⟩
    rw [Line.run, Line.run, List.map_append, List.map_append, htokens, htokens']

theorem sameShape_finish (h : m.shape = m'.shape) :
    (finish m).1.map Token.shape = (finish m').1.map Token.shape ∧
      (finish m).2 = (finish m').2 := by
  cases m <;> cases m' <;> simp only [Mode.shape, reduceCtorEq, Mode.marker.injEq] at h
  case marker.marker t t' =>
    subst h
    exact ⟨rfl, rfl⟩
  all_goals exact ⟨rfl, rfl⟩

/-- Two lines of one template have the same structure. -/
theorem Line.Alike.tokens {l l' : Line} (h : l.Alike l') :
    l.tokens.map Token.shape = l'.tokens.map Token.shape ∧ l.opens = l'.opens := by
  obtain ⟨hmode, htokens⟩ := h.run (m := .blank) rfl
  obtain ⟨hfinish, hopens⟩ := sameShape_finish hmode
  refine ⟨?_, hopens⟩
  rw [Line.tokens, Line.tokens, List.map_append, List.map_append, htokens, hfinish]

/-- Lines of one template have the same structure. -/
theorem shape_tokens_of_alike {ls ls' : List Line} (h : List.Forall₂ Line.Alike ls ls') :
    (ls.flatMap Line.tokens).map Token.shape = (ls'.flatMap Line.tokens).map Token.shape := by
  induction h with
  | nil => rfl
  | cons hl _ ih =>
    rw [List.flatMap_cons, List.flatMap_cons, List.map_append, List.map_append, ih, hl.tokens.1]

theorem Line.alike_refl (l : Line) : l.Alike l :=
  List.forall₂_same.mpr fun p _ => by
    cases p with
    | lit t => exact .lit t
    | val t => exact .val t t
    | json s => exact .json s s

/-! ## Lines that fit

Whether a value fits depends on the structure of the mode alone, and so does the end of a line: a
line with values is checked piece by piece, from one structure to the next. -/

theorem Piece.fits_of_shape (hm : m.shape = m'.shape) {p : Piece} (h : p.Fits m) : p.Fits m' := by
  cases p with
  | lit t => trivial
  | val s =>
    cases m <;> cases m' <;> simp only [Mode.shape, reduceCtorEq, Mode.str.injEq, true_and] at hm
    case str.str => exact hm ▸ h
    all_goals exact h
  | json s =>
    obtain ⟨rfl, h⟩ := h
    cases m' <;> simp only [Mode.shape, reduceCtorEq] at hm
    exact ⟨rfl, h⟩

theorem Line.fits_of_shape :
    ∀ {l : Line} {m m' : Mode}, m.shape = m'.shape → l.Fits m → l.Fits m'
  | [], _, _, _, _ => trivial
  | p :: _, _, _, hm, h =>
    ⟨p.fits_of_shape hm h.1, fits_of_shape
      ((Line.Alike.run (Line.alike_refl [p]) hm).1) h.2⟩

/-- The line is one line that fits, and it leads from one mode to another. -/
structure Line.Leads (m : Mode) (l : Line) (m' : Mode) : Prop where
  oneLine : '\n' ∉ l.text
  fits : l.Fits m
  shape : (l.run m).1.shape = m'.shape

namespace Line.Leads

theorem nil (m : Mode) : Leads m [] m := ⟨List.not_mem_nil, trivial, rfl⟩

theorem cons {m m₁ m' : Mode} {p : Piece} {l : Line} (hline : '\n' ∉ p.text) (hp : p.Fits m)
    (hm : (p.run m).1.shape = m₁.shape) (h : Leads m₁ l m') : Leads m (p :: l) m' where
  oneLine hn := by
    rw [Line.text, List.flatMap_cons, List.mem_append] at hn
    exact hn.elim hline h.oneLine
  fits := ⟨hp, Line.fits_of_shape hm.symm h.fits⟩
  shape := ((Line.Alike.run (Line.alike_refl l) hm).1).trans h.shape

variable {m' : Mode} {l : Line}

/-- Fixed text. -/
theorem lit {m m₁ : Mode} {t : List Char} (hm : (Hcl.run m t).1.shape = m₁.shape ∧ '\n' ∉ t)
    (h : Leads m₁ l m') : Leads m (.lit t :: l) m' :=
  cons hm.2 trivial hm.1 h

/-- Plain text in a string. -/
theorem plain {t : List Char} (ht : PlainText t) (h : Leads (.str [] false) l m') :
    Leads (.str [] false) (.lit t :: l) m' :=
  lit ⟨by rw [run_str_of_plain ht (by simp)]; rfl, ht.newline⟩ h

/-- A plain value in a string. -/
theorem str {s : List Char} (hs : PlainText s) (h : Leads (.str [] false) l m') :
    Leads (.str [] false) (.val s :: l) m' :=
  @cons _ (.str [] false) _ _ _ hs.newline ⟨hs, by simp⟩ rfl h

/-- A value that is a word. -/
theorem word {s : List Char} (hne : s ≠ []) (hs : ∀ c ∈ s, isWordChar c = true)
    (h : Leads (.word []) l m') : Leads .blank (.val s :: l) m' := by
  refine @cons _ (.word []) _ _ _ ?_ ⟨hne, hs⟩ rfl h
  intro hn
  cases hs _ hn

/-- Fixed text that is a word. -/
theorem fixedWord {t : List Char} (hne : t ≠ []) (ht : ∀ c ∈ t, isWordChar c = true)
    (h : Leads (.word []) l m') : Leads .blank (.lit t :: l) m' := by
  refine lit ⟨by rw [run_blank_word hne ht]; rfl, fun hn => ?_⟩ h
  cases ht _ hn

/-- A plain value as a JSON string. -/
theorem json {s : String} (hs : PlainText s.toList)
    (hprint : ∀ c ∈ s.toList, 32 ≤ c.toNat ∧ c.toNat < 127) (h : Leads .blank l m') :
    Leads .blank (.json s :: l) m' := by
  refine cons ?_ ⟨rfl, hs, hprint⟩ rfl h
  show '\n' ∉ jsonText s
  rw [jsonText_of_plain hprint hs.quote hs.backslash, List.mem_append, List.mem_cons, not_or,
    not_or]
  exact ⟨⟨by decide, hs.newline⟩, by decide⟩

/-- A line that leads back to a blank is read as it is meant. -/
theorem reads (h : Leads .blank l .blank) : l.Reads :=
  Line.reads_of_fits h.oneLine h.fits (sameShape_finish h.shape).2

/-- A line that ends in a word is read as it is meant. -/
theorem reads_word (h : Leads .blank l (.word [])) : l.Reads :=
  Line.reads_of_fits h.oneLine h.fits (sameShape_finish h.shape).2

end Line.Leads

/-- A line without values. -/
def Line.IsFixed (l : Line) : Prop := ∀ p ∈ l, ∃ t, p = .lit t

theorem Line.IsFixed.fits : ∀ {l : Line} {m : Mode}, l.IsFixed → l.Fits m
  | [], _, _ => trivial
  | p :: l, m, h => by
    obtain ⟨t, rfl⟩ := h p List.mem_cons_self
    exact ⟨trivial, fits fun q hq => h q (List.mem_cons_of_mem _ hq)⟩

/-- A heredoc starts only where a line ends in a word. -/
theorem finish_of_last {t : List Char} {c : Char} (m : Mode) (h : isWordChar c = false) :
    (finish (run m (t ++ [c])).1).2 = none := by
  have hc : ¬ isWordChar c = true := by rw [h]; simp
  rw [run_append]
  generalize (run m t).1 = m'
  show (finish (step m' c).1).2 = none
  have hstart : (finish (start c).1).2 = none := by
    rw [start]
    split_ifs
    all_goals rfl
  cases m' with
  | blank => exact hstart
  | word w => rw [step, if_neg hc]; exact hstart
  | str v sigil =>
    rw [step]
    split_ifs
    all_goals rfl
  | escape v =>
    rw [step]
    cases unescape c with
    | none => rfl
    | some d => rfl
  | angle =>
    rw [step]
    split_ifs
    · rfl
    · exact hstart
  | marker w => rw [step, if_neg fun hw => hc hw.1]; rfl
  | broken => rfl

/-- A line without values that ends in no word is read as it is meant, whatever else it holds. -/
theorem Line.IsFixed.reads {l : Line} (h : l.IsFixed) (hline : '\n' ∉ l.text)
    (hlast : l.text.getLast?.map isWordChar = some false) : l.Reads := by
  refine Line.reads_of_fits hline h.fits ?_
  rw [Line.opens, ← run_text_of_fits h.fits]
  obtain ⟨c, hc, hword⟩ := Option.map_eq_some_iff.mp hlast
  rw [← List.dropLast_append_getLast? c hc]
  exact finish_of_last _ hword

/-- A text between two others, in a line without values. -/
theorem Line.reads_between {before text after : List Char}
    (hline : '\n' ∉ before ∧ '\n' ∉ text ∧ '\n' ∉ after)
    (hlast : after.getLast?.map isWordChar = some false) :
    Line.Reads [.lit before, .lit text, .lit after] := by
  have hwhole : Line.text [.lit before, .lit text, .lit after] = (before ++ text) ++ after := by
    simp [Line.text, Piece.text]
  refine Line.IsFixed.reads ?_ ?_ ?_
  · intro p hp
    simp only [List.mem_cons, List.not_mem_nil, or_false] at hp
    obtain rfl | rfl | rfl := hp <;> exact ⟨_, rfl⟩
  · rw [hwhole, List.mem_append, List.mem_append]
    tauto
  · obtain ⟨c, hc, hword⟩ := Option.map_eq_some_iff.mp hlast
    rw [hwhole, List.getLast?_append, hc, Option.some_or, Option.map_some, hword]

/-! ## Texts of lines -/

/-- The lines of a text are read one after the other; an empty one follows the last line end. -/
theorem read_joinLines {ls : List (List Char)} (h : ∀ l ∈ ls, '\n' ∉ l) :
    read (joinLines ls) = readLines none (ls ++ [[]]) := by
  rw [read, splitOn_joinLines h]

/-- A text with one heredoc. -/
theorem read_heredoc {before body after : List Line} {opening closing : Line} {m : List Char}
    (hbefore : ∀ l ∈ before, l.Reads) (hopening : '\n' ∉ opening.text)
    (hopen : readLine none opening.text = (opening.tokens, some m))
    (hbody : ∀ l ∈ body, l.Quiet m) (hclosing : '\n' ∉ closing.text)
    (hclose : readLine (some m) closing.text = ([.heredocEnd], none))
    (hafter : ∀ l ∈ after, l.Reads) :
    read (joinLines ((before ++ opening :: (body ++ closing :: after)).map Line.text)) =
      before.flatMap Line.tokens ++ opening.tokens ++ body.map (fun l => Token.line l.text) ++
        [.heredocEnd] ++ after.flatMap Line.tokens ++ [.newline] := by
  have hline : ∀ l ∈ (before ++ opening :: (body ++ closing :: after)).map Line.text,
      '\n' ∉ l := by
    intro t ht
    obtain ⟨l, hl, rfl⟩ := List.mem_map.mp ht
    simp only [List.mem_append, List.mem_cons] at hl
    obtain hl | rfl | hl | rfl | hl := hl
    · exact (hbefore l hl).oneLine
    · exact hopening
    · exact (hbody l hl).oneLine
    · exact hclosing
    · exact (hafter l hl).oneLine
  have hend : readLines none [[]] = [.newline] := rfl
  rw [read_joinLines hline, List.map_append, List.map_cons, List.map_append, List.map_cons,
    List.append_assoc, List.cons_append, List.append_assoc, List.cons_append,
    readLines_text _ hbefore, readLines, hopen, readLines_quiet _ hbody, readLines, hclose,
    readLines_text _ hafter, hend]
  simp only [List.append_assoc, List.cons_append, List.nil_append]

end Hcl
end Library
end OpenstackPlatform
