import Mathlib.Data.List.Basic
import OpenstackPlatform.Library.Text
import OpenstackPlatform.Library.Words
import OpenstackPlatform.RuntimeVersions.Intervals

/-!
# The texts of ranges

`parse_range` of `runtime_versions.py`, and what partial versions and operators mean.

The parser turns every comparator into an interval of keys and intersects them.  The meaning is told
without intervals: a partial version names some releases, and a release can be among them, at or
after the first of them, or after all of them.  Each operator is a condition in these words.

* `partialOf`, `comparator`, `hyphen`, `alternative`, `parseRange`: the parser.
* `Spells`: the texts of partial versions.
* `Partial.Names`, `Partial.AtLeast`, `Partial.Above`, `Operator.Holds`: the meaning.
* `partialOf_eq_some_iff`, `admits_interval`: a partial version is read as it is spelled, and the
  interval of an operator has the releases for which its condition holds.
-/

namespace OpenstackPlatform
namespace RuntimeVersions

open Library

/-! ## Partial versions -/

/-- The leading numbers of a version, with a mark for a pre-release after the third. -/
inductive Numbers where
  | major (major : ℕ)
  | minor (major minor : ℕ)
  | patch (major minor patch : ℕ) (prerelease : Bool)
  deriving DecidableEq, Repr

/-- What a text like `1.x` stands for: its numbers, or any version. -/
inductive Partial where
  | any
  | of (numbers : Numbers)
  deriving DecidableEq, Repr

namespace Numbers

/-- `len(parts) == 3` -/
def exact : Numbers → Bool
  | patch _ _ _ _ => true
  | _ => false

/-- `_start` -/
def start : Numbers → Key
  | major a => ⟨a, 0, 0, false⟩
  | minor a b => ⟨a, b, 0, false⟩
  | patch a b c prerelease => ⟨a, b, c, !prerelease⟩

/-- `_after` -/
def after : Numbers → Key
  | major a => ⟨a + 1, 0, 0, false⟩
  | minor a b => ⟨a, b + 1, 0, false⟩
  | patch a b c _ => ⟨a, b, c + 1, false⟩

/-- `parts[:2]` -/
def line : Numbers → Numbers
  | major a => major a
  | minor a b => minor a b
  | patch a b _ _ => minor a b

/-- The end of a caret range: the first nonzero part, or the last given one, may not change. -/
def caretEnd : Numbers → Key
  | major a => ⟨a + 1, 0, 0, false⟩
  | minor a b => if a ≠ 0 then ⟨a + 1, 0, 0, false⟩ else ⟨0, b + 1, 0, false⟩
  | patch a b c _ =>
    if a ≠ 0 then ⟨a + 1, 0, 0, false⟩
    else if b ≠ 0 then ⟨0, b + 1, 0, false⟩
    else ⟨0, 0, c + 1, false⟩

end Numbers

/-- `_NUMBER` -/
def number (text : List Char) : Option ℕ :=
  match text with
  | [] => none
  | c :: rest =>
    if c = '0' then if rest = [] then some 0 else none
    else if c.isDigit ∧ rest.length ≤ 8 ∧ rest.all Char.isDigit then
      some (Nat.ofDigitChars 10 (c :: rest) 0)
    else none

/-- `x`, `X` and `*` -/
def wildcards : List (List Char) := [['x'], ['X'], ['*']]

/-- `_PART`: a number, or `none` for a wildcard. -/
def part (text : List Char) : Option (Option ℕ) :=
  if text ∈ wildcards then some none else (number text).map some

def isIdentifierChar (c : Char) : Bool := c.isAlphanum || c == '-'

/-- `_IDENTIFIERS` -/
def isIdentifiers (text : List Char) : Bool :=
  (text.splitOn '.').all fun identifier => !identifier.isEmpty && identifier.all isIdentifierChar

/-- What may follow three parts, and whether it begins with a pre-release tag. -/
def tags (text : List Char) : Option Bool :=
  let prerelease := text.takeWhile (· ≠ '+')
  let build := text.dropWhile (· ≠ '+')
  if build = [] ∨ isIdentifiers (build.drop 1) then
    if prerelease = [] then some false
    else if prerelease.head? = some '-' ∧ isIdentifiers (prerelease.drop 1) then some true
    else none
  else none

/-- The numbers before the wildcards; a number after a wildcard names no version range. -/
def leading : List (Option ℕ) → Option (List ℕ)
  | [] => some []
  | some n :: parts => (leading parts).map (n :: ·)
  | none :: parts => if parts.all Option.isNone then some [] else none

/-- A part ends at a hyphen or a plus sign. -/
def isCore (c : Char) : Bool := c ≠ '-' && c ≠ '+'

/-- The partial version of numbers; only three of them may have a pre-release. -/
def ofNumbers : List ℕ → Bool → Option Partial
  | [], false => some .any
  | [a], false => some (.of (.major a))
  | [a, b], false => some (.of (.minor a b))
  | [a, b, c], prerelease => some (.of (.patch a b c prerelease))
  | _, _ => none

/-- The text of a partial version without its `v`. -/
def body (text : List Char) : List Char := if text.head? = some 'v' then text.drop 1 else text

/-- `_partial` -/
def partialOf (text : List Char) : Option Partial :=
  let rest := (body text).dropWhile isCore
  (((body text).takeWhile isCore).splitOn '.' |>.mapM part).bind fun parts =>
    if parts.length ≤ 3 ∧ (rest = [] ∨ parts.length = 3) then
      (leading parts).bind fun numbers => (tags rest).bind fun prerelease =>
        ofNumbers numbers prerelease
    else none

/-! ## Comparators -/

inductive Operator where
  | equal
  | caret
  | tilde
  | above
  | atLeast
  | below
  | atMost
  deriving DecidableEq, Repr

/-- The operator of a token, and its partial version.  Where the pattern of the source backtracks
because nothing follows an operator, there is no partial version in either reading. -/
def readOperator : List Char → Operator × List Char
  | '^' :: rest => (.caret, rest)
  | '~' :: '>' :: rest => (.tilde, rest)
  | '~' :: rest => (.tilde, rest)
  | '>' :: '=' :: rest => (.atLeast, rest)
  | '<' :: '=' :: rest => (.atMost, rest)
  | '>' :: rest => (.above, rest)
  | '<' :: rest => (.below, rest)
  | '=' :: rest => (.equal, rest)
  | rest => (.equal, rest)

/-- The interval of an operator and the numbers after it. -/
def Operator.ofNumbers : Operator → Numbers → Interval
  | equal, n =>
    if n.exact then ⟨some ⟨n.start, true⟩, some ⟨n.start, true⟩⟩
    else ⟨some ⟨n.start, true⟩, some ⟨n.after, false⟩⟩
  | atLeast, n => ⟨some ⟨n.start, true⟩, none⟩
  | above, n => ⟨some (if n.exact then ⟨n.start, false⟩ else ⟨n.after, true⟩), none⟩
  | below, n => ⟨none, some ⟨n.start, false⟩⟩
  | atMost, n => ⟨none, some (if n.exact then ⟨n.start, true⟩ else ⟨n.after, false⟩)⟩
  | tilde, n => ⟨some ⟨n.start, true⟩, some ⟨n.line.after, false⟩⟩
  | caret, n => ⟨some ⟨n.start, true⟩, some ⟨n.caretEnd, false⟩⟩

/-- The interval of an operator and a partial version. -/
def Operator.interval : Operator → Partial → Interval
  | below, .any => nothing
  | above, .any => nothing
  | _, .any => any
  | operator, .of n => operator.ofNumbers n

/-- `_comparator` -/
def comparator (token : List Char) : Option (Interval) :=
  (partialOf (readOperator token).2).map (readOperator token).1.interval

/-- The lower bound of a hyphen range. -/
def Partial.lower : Partial → Option (Bound Key)
  | any => none
  | of n => some ⟨n.start, true⟩

/-- The upper bound of a hyphen range: a partial version is in it as a whole. -/
def Partial.upper : Partial → Option (Bound Key)
  | any => none
  | of n => some (if n.exact then ⟨n.start, true⟩ else ⟨n.after, false⟩)

/-- `_hyphen` -/
def hyphen (first last : List Char) : Option (Interval) :=
  (partialOf first).bind fun low => (partialOf last).map fun high => ⟨low.lower, high.upper⟩

/-! ## Ranges -/

/-- `MAXIMUM_REQUEST_LENGTH` -/
def maximumRequestLength : ℕ := 256

/-- `_RANGE_CHARACTERS` -/
def isRangeChar (c : Char) : Bool := c.isAlphanum || ".+*~^<>=| -".toList.contains c

/-- `value.split("||")` -/
def splitOr : List Char → List (List Char)
  | [] => [[]]
  | '|' :: '|' :: rest => [] :: splitOr rest
  | c :: rest => (splitOr rest).modifyHead (c :: ·)

def isOperatorChar (c : Char) : Bool := "^~<>=".toList.contains c

/-- `_OPERATOR_SPACE.sub`: the spaces after an operator are dropped; `after` tells whether the last
character was one of an operator. -/
def closeOperators (after : Bool) : List Char → List Char
  | [] => []
  | c :: rest =>
    if c = ' ' then
      if after then closeOperators true rest else c :: closeOperators false rest
    else c :: closeOperators (isOperatorChar c) rest

/-- The comparators of an alternative. -/
def tokens (text : List Char) : List (List Char) :=
  words (closeOperators false (List.intercalate [' '] (words text)))

/-- `_HYPHEN`: the ends of a hyphen range. -/
def hyphenEnds (text : List Char) : Option (List Char × List Char) :=
  match words text with
  | [first, ['-'], last] => some (first, last)
  | _ => none

/-- The interval of an alternative. -/
def alternative (text : List Char) : Option (Interval) :=
  match hyphenEnds text with
  | some (first, last) => hyphen first last
  | none => (tokens text).foldlM
      (fun interval token => (comparator token).map interval.intersect) any

/-- `parse_range` -/
def parseRange (value : String) : Option VersionRange :=
  if value.length > maximumRequestLength ∨ !value.toList.all isRangeChar then none
  else ((splitOr value.toList).mapM alternative).map VersionRange.mk

/-- `parse_version`: an exact release. -/
def parseVersion (text : List Char) : Option Version :=
  match (text.splitOn '.').mapM number with
  | some [a, b, c] => some ⟨a, b, c⟩
  | _ => none

example : parseRange "~> 1.2 || 2 - 3.x" = some ⟨[⟨some ⟨⟨1, 2, 0, false⟩, true⟩,
    some ⟨⟨1, 3, 0, false⟩, false⟩⟩, ⟨some ⟨⟨2, 0, 0, false⟩, true⟩,
    some ⟨⟨4, 0, 0, false⟩, false⟩⟩]⟩ := by rfl

/-! ## The meaning of a range -/

/-- The texts of a part. -/
inductive PartText : List Char → Option ℕ → Prop where
  | number {n : ℕ} (h : n < unbounded) : PartText (Nat.toDigits 10 n) (some n)
  | wildcard {text : List Char} (h : text ∈ wildcards) : PartText text none

/-- The partial version of at most three parts: numbers, then wildcards. -/
inductive Reads : List (Option ℕ) → Bool → Partial → Prop where
  | any {n : ℕ} (h : 1 ≤ n ∧ n ≤ 3) : Reads (List.replicate n none) false .any
  | major {n a : ℕ} (h : n ≤ 2) : Reads (some a :: List.replicate n none) false (.of (.major a))
  | minor {n a b : ℕ} (h : n ≤ 1) :
      Reads (some a :: some b :: List.replicate n none) false (.of (.minor a b))
  | patch {a b c : ℕ} {prerelease : Bool} :
      Reads [some a, some b, some c] prerelease (.of (.patch a b c prerelease))

/-- A tag: after its sign identifiers of letters, digits and hyphens, with dots between them. -/
def IsTag (sign : Char) (tag : List Char) : Prop :=
  ∃ identifiers : List (List Char), identifiers ≠ [] ∧
    (∀ identifier ∈ identifiers, identifier ≠ [] ∧
      ∀ c ∈ identifier, c.isAlphanum = true ∨ c = '-') ∧
    tag = sign :: List.intercalate ['.'] identifiers

/-- The texts of a partial version: perhaps a `v`, parts with dots between them, and after three
parts perhaps a pre-release tag and a build tag. -/
inductive Spells : List Char → Partial → Prop where
  | mk {v prerelease build : List Char} {texts : List (List Char)} {parts : List (Option ℕ)}
      {p : Partial} (hv : v = [] ∨ v = ['v']) (hparts : List.Forall₂ PartText texts parts)
      (hprerelease : prerelease = [] ∨ IsTag '-' prerelease)
      (hbuild : build = [] ∨ IsTag '+' build)
      (htagged : prerelease ++ build = [] ∨ parts.length = 3)
      (hreads : Reads parts (!prerelease.isEmpty) p) :
      Spells (v ++ (List.intercalate ['.'] texts ++ (prerelease ++ build))) p

namespace Partial

/-- The version is one of those that a partial version stands for. -/
def Names (v : Version) : Partial → Prop
  | any => True
  | of (.major a) => v.major = a
  | of (.minor a b) => v.major = a ∧ v.minor = b
  | of (.patch a b c prerelease) => v = ⟨a, b, c⟩ ∧ prerelease = false

/-- The version is not before the first that a partial version stands for. -/
def AtLeast (v : Version) : Partial → Prop
  | any => True
  | of (.major a) => a ≤ v.major
  | of (.minor a b) => a < v.major ∨ a = v.major ∧ b ≤ v.minor
  | of (.patch a b c _) =>
    a < v.major ∨ a = v.major ∧ (b < v.minor ∨ b = v.minor ∧ c ≤ v.patch)

/-- The version is after all that a partial version stands for.  A release is after its
pre-releases. -/
def Above (v : Version) : Partial → Prop
  | any => False
  | of (.major a) => a < v.major
  | of (.minor a b) => a < v.major ∨ a = v.major ∧ b < v.minor
  | of (.patch a b c prerelease) => a < v.major ∨ a = v.major ∧ (b < v.minor ∨ b = v.minor ∧
      (c < v.patch ∨ c = v.patch ∧ prerelease = true))

/-- The version has the same major and minor version, as far as they are given. -/
def SameLine (v : Version) : Partial → Prop
  | any => True
  | of (.major a) => v.major = a
  | of (.minor a b) => v.major = a ∧ v.minor = b
  | of (.patch a b _ _) => v.major = a ∧ v.minor = b

/-- The version agrees up to the first part that is not zero, or up to the last given one. -/
def Keeps (v : Version) : Partial → Prop
  | any => True
  | of (.major a) => v.major = a
  | of (.minor a b) => v.major = a ∧ (a = 0 → v.minor = b)
  | of (.patch a b c _) => v.major = a ∧ (a = 0 → v.minor = b ∧ (b = 0 → v.patch = c))

end Partial

/-- The condition of an operator. -/
def Operator.Holds (v : Version) (p : Partial) : Operator → Prop
  | equal => p.Names v
  | caret => p.AtLeast v ∧ p.Keeps v
  | tilde => p.AtLeast v ∧ p.SameLine v
  | above => p.Above v
  | atLeast => p.AtLeast v
  | below => ¬ p.AtLeast v
  | atMost => ¬ p.Above v

/-- The texts of an operator. -/
def Operator.texts : Operator → List (List Char)
  | equal => [[], ['=']]
  | caret => [['^']]
  | tilde => [['~'], ['~', '>']]
  | above => [['>']]
  | atLeast => [['>', '=']]
  | below => [['<']]
  | atMost => [['<', '=']]

/-! ## Numbers -/

theorem digitChar_of_isDigit {c : Char} (h : c.isDigit = true) :
    (c.toNat - '0'.toNat).digitChar = c := by
  obtain ⟨hlow, hhigh⟩ := Char.isDigit_iff_toNat.mp h
  have hlt : c.toNat - '0'.toNat < 10 := by
    have h0 : '0'.toNat = 48 := rfl
    have h9 : '9'.toNat = 57 := rfl
    omega
  apply Char.toNat_inj.mp
  rw [Nat.toNat_digitChar_of_lt_ten hlt]
  have h0 : '0'.toNat = 48 := rfl
  omega

variable {text : List Char}

/-- Digits after a number that is not zero make the number of the whole text. -/
theorem toDigits_append {acc : ℕ} (hacc : 0 < acc) (h : text.all Char.isDigit = true) :
    Nat.toDigits 10 acc ++ text = Nat.toDigits 10 (Nat.ofDigitChars 10 text acc) := by
  induction text generalizing acc with
  | nil => rw [List.append_nil, Nat.ofDigitChars_nil]
  | cons c rest ih =>
    rw [List.all_cons, Bool.and_eq_true] at h
    obtain ⟨hlow, hhigh⟩ := Char.isDigit_iff_toNat.mp h.1
    have h0 : '0'.toNat = 48 := rfl
    have h9 : '9'.toNat = 57 := rfl
    have hlt : c.toNat - '0'.toNat < 10 := by omega
    have happend := Nat.toDigits_append_toDigits (b := 10) (by decide) hacc hlt
    rw [Nat.toDigits_of_lt_base hlt, digitChar_of_isDigit h.1] at happend
    rw [Nat.ofDigitChars_cons, ← ih (by omega) h.2, ← happend, List.append_assoc,
      List.singleton_append]

/-- A number that is not zero does not begin with a zero. -/
theorem head?_toDigits {n : ℕ} (hn : 0 < n) : (Nat.toDigits 10 n).head? ≠ some '0' := by
  induction n using Nat.strong_induction_on with
  | h n ih =>
    rw [Nat.toDigits_eq_if (by decide)]
    by_cases hlt : n < 10
    · rw [if_pos hlt, List.head?_cons]
      intro hzero
      have hnat := Nat.toNat_digitChar_of_lt_ten hlt
      rw [Option.some.inj hzero] at hnat
      have h0 : '0'.toNat = 48 := rfl
      omega
    · rw [if_neg hlt]
      have hdiv := ih (n / 10) (by omega) (by omega)
      cases hhead : Nat.toDigits 10 (n / 10) with
      | nil => exact absurd hhead Nat.toDigits_ne_nil
      | cons c rest =>
        rw [hhead] at hdiv
        exact hdiv

/-- What is read as a number is its decimal text. -/
theorem number_eq_some_iff {text : List Char} {n : ℕ} :
    number text = some n ↔ text = Nat.toDigits 10 n ∧ n < unbounded := by
  constructor
  · intro h
    cases text with
    | nil => cases h
    | cons c rest =>
      rw [number] at h
      by_cases hc : c = '0'
      · rw [if_pos hc] at h
        split at h
        · rename_i hrest
          cases h
          rw [hc, hrest]
          exact ⟨rfl, by decide⟩
        · cases h
      · rw [if_neg hc] at h
        split at h
        · rename_i hdigits
          obtain ⟨hdigit, hlength, hall⟩ := hdigits
          cases h
          obtain ⟨hlow, hhigh⟩ := Char.isDigit_iff_toNat.mp hdigit
          have h0 : '0'.toNat = 48 := rfl
          have h9 : '9'.toNat = 57 := rfl
          have hpos : 0 < c.toNat - '0'.toNat := by
            have hne : c.toNat ≠ '0'.toNat := fun heq => hc (Char.toNat_inj.mp heq)
            omega
          have htext := toDigits_append hpos hall
          rw [Nat.toDigits_of_lt_base (by omega), digitChar_of_isDigit hdigit,
            List.singleton_append] at htext
          rw [Nat.ofDigitChars_cons, Nat.mul_zero, Nat.zero_add]
          refine ⟨htext, ?_⟩
          have hbound := (Nat.length_toDigits_le_iff (b := 10) (n := Nat.ofDigitChars 10 rest
            (c.toNat - '0'.toNat)) (k := 9) (by decide) (by decide)).mp
          rw [← htext] at hbound
          exact hbound (by rw [List.length_cons]; omega)
        · cases h
  · rintro ⟨rfl, hlt⟩
    by_cases hn : n = 0
    · subst hn
      rfl
    · have hhead := head?_toDigits (Nat.pos_of_ne_zero hn)
      have hlength :=
        (Nat.length_toDigits_le_iff (b := 10) (n := n) (k := 9) (by decide) (by decide)).mpr hlt
      have hdigit : ∀ c ∈ Nat.toDigits 10 n, c.isDigit = true := fun c hc =>
        Nat.isDigit_of_mem_toDigits (by decide) (by decide) hc
      have hvalue := @Nat.ofDigitChars_ten_toDigits n
      cases htext : Nat.toDigits 10 n with
      | nil => exact absurd htext Nat.toDigits_ne_nil
      | cons c rest =>
        rw [htext] at hhead hlength hdigit hvalue
        rw [number, if_neg fun hc => hhead (by rw [hc, List.head?_cons]), if_pos, hvalue]
        refine ⟨hdigit c List.mem_cons_self, ?_, List.all_eq_true.mpr fun d hd =>
          hdigit d (List.mem_cons_of_mem c hd)⟩
        rw [List.length_cons] at hlength
        omega

/-! ## Parts -/

theorem PartText.isCore {text : List Char} {q : Option ℕ} (h : PartText text q) :
    ∀ c ∈ text, isCore c = true ∧ c ≠ '.' ∧ c ≠ 'v' := by
  intro c hc
  cases h with
  | number hn =>
    have hdigit := Nat.isDigit_of_mem_toDigits (by decide) (by decide) hc
    refine ⟨?_, ?_, ?_⟩
    · rw [RuntimeVersions.isCore, Bool.and_eq_true, decide_eq_true_eq, decide_eq_true_eq]
      refine ⟨?_, ?_⟩
      · rintro rfl
        cases hdigit
      · rintro rfl
        cases hdigit
    · rintro rfl
      cases hdigit
    · rintro rfl
      cases hdigit
  | wildcard hw =>
    rw [wildcards, List.mem_cons, List.mem_cons, List.mem_singleton] at hw
    obtain rfl | rfl | rfl := hw
    · rw [List.mem_singleton.mp hc]
      decide
    · rw [List.mem_singleton.mp hc]
      decide
    · rw [List.mem_singleton.mp hc]
      decide

theorem PartText.ne_nil {q : Option ℕ} (h : PartText text q) : text ≠ [] := by
  cases h with
  | number hn => exact Nat.toDigits_ne_nil
  | wildcard hw =>
    rintro rfl
    exact absurd hw (by decide)

/-- What is read as a part is one of its texts. -/
theorem part_eq_some_iff {q : Option ℕ} : part text = some q ↔ PartText text q := by
  constructor
  · intro h
    rw [part] at h
    split at h
    · rename_i hw
      cases h
      exact .wildcard hw
    · obtain ⟨n, hn, rfl⟩ := Option.map_eq_some_iff.mp h
      obtain ⟨rfl, hlt⟩ := number_eq_some_iff.mp hn
      exact .number hlt
  · intro h
    rw [part]
    cases h with
    | number hn =>
      rename_i n
      rw [if_neg, number_eq_some_iff.mpr ⟨rfl, hn⟩, Option.map_some]
      intro hw
      have hdigit : ∀ c ∈ Nat.toDigits 10 n, c.isDigit = true := fun c hc =>
        Nat.isDigit_of_mem_toDigits (by decide) (by decide) hc
      rw [wildcards, List.mem_cons, List.mem_cons, List.mem_singleton] at hw
      obtain heq | heq | heq := hw <;>
        · rw [heq] at hdigit
          cases hdigit _ List.mem_cons_self
    | wildcard hw => rw [if_pos hw]

theorem leading_replicate (n : ℕ) : leading (List.replicate n none) = some [] := by
  cases n with
  | zero => rfl
  | succ n =>
    rw [List.replicate_succ, leading, if_pos]
    exact List.all_eq_true.mpr fun q hq => by rw [List.eq_of_mem_replicate hq]; rfl

variable {parts : List (Option ℕ)}

/-- Leading numbers are followed by wildcards only. -/
theorem leading_eq_some {numbers : List ℕ} (h : leading parts = some numbers) :
    ∃ n, parts = numbers.map some ++ List.replicate n none := by
  induction parts generalizing numbers with
  | nil =>
    cases h
    exact ⟨0, rfl⟩
  | cons q parts ih =>
    cases q with
    | some a =>
      obtain ⟨rest, hrest, rfl⟩ := Option.map_eq_some_iff.mp h
      obtain ⟨n, hn⟩ := ih hrest
      exact ⟨n, by rw [hn, List.map_cons, List.cons_append]⟩
    | none =>
      rw [leading] at h
      split at h
      · rename_i hall
        cases h
        refine ⟨parts.length + 1, ?_⟩
        rw [List.map_nil, List.nil_append, List.replicate_succ, List.cons.injEq]
        refine ⟨rfl, List.eq_replicate_iff.mpr ⟨rfl, fun q hq => ?_⟩⟩
        exact Option.isNone_iff_eq_none.mp (List.all_eq_true.mp hall q hq)
      · cases h

/-- The partial version of at least one part and at most three. -/
theorem reads_iff {prerelease : Bool} {p : Partial} :
    Reads parts prerelease p ↔ (1 ≤ parts.length ∧ parts.length ≤ 3) ∧
      ∃ numbers, leading parts = some numbers ∧ ofNumbers numbers prerelease = some p := by
  constructor
  · intro h
    cases h with
    | any hn =>
      rw [List.length_replicate]
      exact ⟨hn, [], leading_replicate _, rfl⟩
    | major hn =>
      rename_i n a
      refine ⟨⟨?_, ?_⟩, [a], ?_, rfl⟩
      · rw [List.length_cons]; omega
      · rw [List.length_cons, List.length_replicate]; omega
      · rw [leading, leading_replicate, Option.map_some]
    | minor hn =>
      rename_i n a b
      refine ⟨⟨?_, ?_⟩, [a, b], ?_, rfl⟩
      · rw [List.length_cons]; omega
      · rw [List.length_cons, List.length_cons, List.length_replicate]; omega
      · rw [leading, leading, leading_replicate, Option.map_some, Option.map_some]
    | patch => exact ⟨⟨Nat.le_add_left 1 2, le_refl 3⟩, _, rfl, rfl⟩
  · rintro ⟨⟨hone, hthree⟩, numbers, hleading, hp⟩
    obtain ⟨n, rfl⟩ := leading_eq_some hleading
    rw [List.length_append, List.length_map, List.length_replicate] at hone hthree
    match numbers, prerelease, hp with
    | [], false, hp =>
      cases hp
      rw [List.length_nil] at hone hthree
      exact .any (by omega)
    | [a], false, hp =>
      cases hp
      rw [List.length_singleton] at hthree
      exact .major (by omega)
    | [a, b], false, hp =>
      cases hp
      rw [List.length_cons, List.length_singleton] at hthree
      exact .minor (by omega)
    | [a, b, c], prerelease, hp =>
      cases hp
      rw [List.length_cons, List.length_cons, List.length_singleton] at hthree
      obtain rfl : n = 0 := by omega
      exact .patch

/-! ## Tags -/

/-- What is read as identifiers. -/
theorem isIdentifiers_iff : isIdentifiers text = true ↔
    ∃ identifiers : List (List Char), identifiers ≠ [] ∧
      (∀ identifier ∈ identifiers, identifier ≠ [] ∧
        ∀ c ∈ identifier, c.isAlphanum = true ∨ c = '-') ∧
      text = List.intercalate ['.'] identifiers := by
  have hone : ∀ identifier : List Char,
      (!identifier.isEmpty && identifier.all isIdentifierChar) = true ↔
        identifier ≠ [] ∧ ∀ c ∈ identifier, c.isAlphanum = true ∨ c = '-' := by
    intro identifier
    rw [Bool.and_eq_true, Bool.not_eq_true', List.isEmpty_eq_false_iff, List.all_eq_true]
    simp only [isIdentifierChar, Bool.or_eq_true, beq_iff_eq]
  rw [isIdentifiers, List.all_eq_true]
  constructor
  · intro h
    have hjoin : ['.'].intercalate (text.splitOn '.') = text := List.intercalate_splitOn '.'
    exact ⟨text.splitOn '.', List.splitOn_ne_nil '.' text, fun identifier hmem =>
      (hone identifier).mp (h identifier hmem), hjoin.symm⟩
  · rintro ⟨identifiers, hne, hall, rfl⟩ identifier hmem
    rw [List.splitOn_intercalate '.' ?_ hne] at hmem
    · exact (hone identifier).mpr (hall identifier hmem)
    · intro other hother hdot
      obtain halnum | heq := (hall other hother).2 '.' hdot
      · cases halnum
      · cases heq

theorem isTag_iff {sign : Char} {tag : List Char} :
    IsTag sign tag ↔ ∃ text, tag = sign :: text ∧ isIdentifiers text = true := by
  constructor
  · rintro ⟨identifiers, hne, hall, rfl⟩
    exact ⟨_, rfl, isIdentifiers_iff.mpr ⟨identifiers, hne, hall, rfl⟩⟩
  · rintro ⟨text, rfl, h⟩
    obtain ⟨identifiers, hne, hall, rfl⟩ := isIdentifiers_iff.mp h
    exact ⟨identifiers, hne, hall, rfl⟩

theorem ne_plus_of_isIdentifiers (h : isIdentifiers text = true) : ∀ c ∈ text, c ≠ '+' := by
  rintro c hc rfl
  obtain hdot | ⟨identifier, hmem, hc⟩ := mem_splitOn (d := '.') hc
  · cases hdot
  · have hall := List.all_eq_true.mp h identifier hmem
    rw [Bool.and_eq_true] at hall
    cases List.all_eq_true.mp hall.2 _ hc

theorem dropWhile_head {α : Type} {p : α → Bool} {l : List α} {a : α} {m : List α}
    (h : l.dropWhile p = a :: m) : p a = false := by
  have hne : l.dropWhile p ≠ [] := by
    rw [h]
    exact List.cons_ne_nil _ _
  have hhead := List.head_dropWhile_not p hne
  simp only [h, List.head_cons] at hhead
  exact hhead

/-- Tags are a pre-release tag and a build tag, each of which may be missing. -/
theorem tags_eq_some_iff {prerelease : Bool} :
    tags text = some prerelease ↔ ∃ pre build : List Char, text = pre ++ build ∧
      (pre = [] ∨ IsTag '-' pre) ∧ (build = [] ∨ IsTag '+' build) ∧
        prerelease = !pre.isEmpty := by
  constructor
  · intro h
    refine ⟨text.takeWhile (· ≠ '+'), text.dropWhile (· ≠ '+'),
      List.takeWhile_append_dropWhile.symm, ?_⟩
    simp only [tags] at h
    split at h
    · rename_i hbuild
      have htag : text.dropWhile (· ≠ '+') = [] ∨ IsTag '+' (text.dropWhile (· ≠ '+')) := by
        obtain hbuild | hbuild := hbuild
        · exact .inl hbuild
        · cases hdrop : text.dropWhile (· ≠ '+') with
          | nil => exact .inl rfl
          | cons c identifiers =>
            rw [hdrop, List.drop_one, List.tail_cons] at hbuild
            have hc := dropWhile_head hdrop
            rw [decide_eq_false_iff_not, not_not] at hc
            exact .inr (isTag_iff.mpr ⟨identifiers, by rw [hc], hbuild⟩)
      split at h
      · rename_i hpre
        rw [hpre]
        exact ⟨.inl rfl, htag, (Option.some.inj h).symm⟩
      · rename_i hpre
        split at h
        · rename_i hids
          cases htake : text.takeWhile (· ≠ '+') with
          | nil => exact absurd htake hpre
          | cons c identifiers =>
            rw [htake, List.head?_cons, List.drop_one, List.tail_cons] at hids
            have hpretag : IsTag '-' (c :: identifiers) :=
              isTag_iff.mpr ⟨identifiers, by rw [Option.some.inj hids.1], hids.2⟩
            exact ⟨.inr hpretag, htag, (Option.some.inj h).symm⟩
        · cases h
    · cases h
  · rintro ⟨pre, build, rfl, hpre, hbuild, rfl⟩
    rw [isTag_iff] at hpre hbuild
    have hplus : ∀ c ∈ pre, decide (c ≠ '+') = true := by
      intro c hc
      rw [decide_eq_true_eq]
      obtain rfl | ⟨identifiers, rfl, hids⟩ := hpre
      · cases hc
      · obtain rfl | hc := List.mem_cons.mp hc
        · decide
        · exact ne_plus_of_isIdentifiers hids c hc
    have htake : (pre ++ build).takeWhile (· ≠ '+') = pre := by
      rw [List.takeWhile_append_of_pos hplus]
      obtain rfl | ⟨identifiers, rfl, hids⟩ := hbuild
      · rw [List.takeWhile_nil, List.append_nil]
      · rw [List.takeWhile_cons_of_neg (by decide), List.append_nil]
    have hdrop : (pre ++ build).dropWhile (· ≠ '+') = build := by
      rw [List.dropWhile_append_of_pos hplus]
      obtain rfl | ⟨identifiers, rfl, hids⟩ := hbuild
      · rw [List.dropWhile_nil]
      · rw [List.dropWhile_cons_of_neg (by decide)]
    simp only [tags]
    rw [htake, hdrop, if_pos]
    · obtain rfl | ⟨identifiers, rfl, hids⟩ := hpre
      · rfl
      · rw [if_neg (List.cons_ne_nil _ _), if_pos ⟨rfl, hids⟩]
        rfl
    · obtain rfl | ⟨identifiers, rfl, hids⟩ := hbuild
      · exact .inl rfl
      · exact .inr hids

/-! ## The texts of partial versions -/

theorem eq_body (text : List Char) : ∃ v, (v = [] ∨ v = ['v']) ∧ text = v ++ body text := by
  rw [body]
  split
  · rename_i hv
    cases text with
    | nil => cases hv
    | cons c rest =>
      cases hv
      exact ⟨['v'], .inr rfl, rfl⟩
  · exact ⟨[], .inl rfl, rfl⟩

theorem body_append {v : List Char} (hv : v = [] ∨ v = ['v']) (htext : text.head? ≠ some 'v') :
    body (v ++ text) = text := by
  obtain rfl | rfl := hv
  · rw [List.nil_append, body, if_neg htext]
  · rw [body, if_pos (by rfl)]
    rfl

/-- Parts with dots between them, and what may stand after them, are told apart. -/
theorem takeWhile_isCore {texts : List (List Char)} {rest : List Char}
    (hparts : List.Forall₂ PartText texts parts) (hrest : rest = [] ∨ ∃ c tail, rest = c :: tail ∧
      isCore c = false) :
    (List.intercalate ['.'] texts ++ rest).takeWhile isCore = List.intercalate ['.'] texts ∧
      (List.intercalate ['.'] texts ++ rest).dropWhile isCore = rest := by
  have hcore : ∀ c ∈ List.intercalate ['.'] texts, isCore c = true := by
    intro c hc
    obtain rfl | ⟨text, htext, hc⟩ := mem_intercalate hc
    · rfl
    · obtain ⟨q, hq⟩ := exists_of_mem_left hparts htext
      exact (hq.isCore c hc).1
  rw [List.takeWhile_append_of_pos hcore, List.dropWhile_append_of_pos hcore]
  obtain rfl | ⟨c, tail, rfl, hc⟩ := hrest
  · exact ⟨List.append_nil _, rfl⟩
  · rw [List.takeWhile_cons_of_neg (Bool.not_eq_true _ ▸ hc),
      List.dropWhile_cons_of_neg (Bool.not_eq_true _ ▸ hc), List.append_nil]
    exact ⟨rfl, rfl⟩

/-- What is read as a partial version is one of its texts. -/
theorem partialOf_eq_some_iff {p : Partial} : partialOf text = some p ↔ Spells text p := by
  constructor
  · intro h
    obtain ⟨v, hv, htext⟩ := eq_body text
    obtain ⟨parts, hparts, h⟩ := Option.bind_eq_some_iff.mp h
    split at h
    · rename_i hlength
      obtain ⟨numbers, hnumbers, h⟩ := Option.bind_eq_some_iff.mp h
      obtain ⟨prerelease, htags, hp⟩ := Option.bind_eq_some_iff.mp h
      obtain ⟨pre, build, hrest, hpre, hbuild, rfl⟩ := tags_eq_some_iff.mp htags
      have hforall := (mapM_eq_some_iff fun a b => part_eq_some_iff).mp hparts
      have hjoin : ['.'].intercalate (((body text).takeWhile isCore).splitOn '.') =
          (body text).takeWhile isCore := List.intercalate_splitOn '.'
      have hone : 1 ≤ parts.length := by
        rw [← hforall.length_eq]
        exact List.length_pos_iff.mpr (List.splitOn_ne_nil '.' ((body text).takeWhile isCore))
      have hbody := List.takeWhile_append_dropWhile (p := isCore) (l := body text)
      rw [← hjoin, hrest] at hbody
      rw [htext, ← hbody]
      rw [hrest] at hlength
      exact .mk hv hforall hpre hbuild hlength.2
        (reads_iff.mpr ⟨⟨hone, hlength.1⟩, numbers, hnumbers, hp⟩)
    · cases h
  · rintro ⟨hv, hparts, hpre, hbuild, htagged, hreads⟩
    rename_i v pre build texts parts
    obtain ⟨⟨hone, hthree⟩, numbers, hnumbers, hp⟩ := reads_iff.mp hreads
    have hrest : pre ++ build = [] ∨ ∃ c tail, pre ++ build = c :: tail ∧ isCore c = false := by
      obtain rfl | ⟨identifiers, -, -, rfl⟩ := hpre
      · obtain rfl | ⟨identifiers, -, -, rfl⟩ := hbuild
        · exact .inl rfl
        · exact .inr ⟨'+', _, rfl, rfl⟩
      · exact .inr ⟨'-', _, rfl, rfl⟩
    have htexts : texts ≠ [] := by
      rintro rfl
      rw [List.forall₂_nil_left_iff] at hparts
      rw [hparts] at hone
      cases hone
    have hnone : ∀ text ∈ texts, '.' ∉ text := by
      intro text htext hdot
      obtain ⟨q, hq⟩ := exists_of_mem_left hparts htext
      exact (hq.isCore _ hdot).2.1 rfl
    have hhead : (List.intercalate ['.'] texts ++ (pre ++ build)).head? ≠ some 'v' := by
      cases hparts with
      | nil => exact absurd rfl htexts
      | cons hq hparts =>
        rename_i text q texts parts
        cases text with
        | nil => exact absurd rfl hq.ne_nil
        | cons c text =>
          rw [List.head?_append, head?_intercalate (List.cons_ne_nil c text), List.head?_cons,
            Option.some_or]
          exact fun hc => (hq.isCore c List.mem_cons_self).2.2 (Option.some.inj hc)
    obtain ⟨htake, hdrop⟩ := takeWhile_isCore hparts hrest
    have hmap : texts.mapM part = some parts :=
      (mapM_eq_some_iff fun a b => part_eq_some_iff).mpr hparts
    have htags : tags (pre ++ build) = some (!pre.isEmpty) :=
      tags_eq_some_iff.mpr ⟨pre, build, rfl, hpre, hbuild, rfl⟩
    simp only [partialOf]
    rw [body_append hv hhead, htake, hdrop, List.splitOn_intercalate '.' hnone htexts, hmap,
      Option.bind_some, if_pos ⟨hthree, htagged⟩, hnumbers, htags]
    exact hp

/-! ## Operators -/

theorem PartText.head {q : Option ℕ} (h : PartText text q) :
    ∃ c rest, text = c :: rest ∧ isOperatorChar c = false := by
  cases htext : text with
  | nil => exact absurd htext h.ne_nil
  | cons c rest =>
    refine ⟨c, rest, rfl, ?_⟩
    have hc : c ∈ text := htext ▸ List.mem_cons_self
    cases h with
    | number hn =>
      have hdigit := Nat.isDigit_of_mem_toDigits (by decide) (by decide) hc
      rw [isOperatorChar, List.contains_eq_mem, decide_eq_false_iff_not]
      intro hmem
      have hnone : ∀ d ∈ "^~<>=".toList, d.isDigit = false := by decide
      rw [hnone c hmem] at hdigit
      cases hdigit
    | wildcard hw =>
      rw [wildcards, List.mem_cons, List.mem_cons, List.mem_singleton] at hw
      obtain rfl | rfl | rfl := hw <;>
        · obtain ⟨rfl, -⟩ := List.cons.inj htext
          rfl

/-- A partial version does not begin like an operator. -/
theorem Spells.head {text : List Char} {p : Partial} (h : Spells text p) :
    ∃ c rest, text = c :: rest ∧ isOperatorChar c = false := by
  obtain ⟨hv, hparts, hpre, hbuild, htagged, hreads⟩ := h
  rename_i v pre build texts parts
  obtain ⟨⟨hone, -⟩, -⟩ := reads_iff.mp hreads
  obtain rfl | rfl := hv
  · cases hparts with
    | nil => exact absurd hone (by decide)
    | cons hq hparts =>
      obtain ⟨c, rest, rfl, hc⟩ := hq.head
      rename_i texts _
      have hhead := head?_intercalate (d := '.') (List.cons_ne_nil c rest) texts
      cases hjoin : List.intercalate ['.'] ((c :: rest) :: texts) with
      | nil =>
        rw [hjoin] at hhead
        cases hhead
      | cons d tail =>
        rw [hjoin] at hhead
        obtain rfl := Option.some.inj hhead
        exact ⟨d, tail ++ (pre ++ build), rfl, hc⟩
  · exact ⟨'v', _, rfl, rfl⟩

variable {operator : Operator}

/-- The operator before a partial version is read back. -/
theorem readOperator_append {sign : List Char} {p : Partial} (hsign : sign ∈ operator.texts)
    (htext : Spells text p) : readOperator (sign ++ text) = (operator, text) := by
  obtain ⟨c, rest, rfl, hc⟩ := htext.head
  have hne : c ≠ '^' ∧ c ≠ '~' ∧ c ≠ '<' ∧ c ≠ '>' ∧ c ≠ '=' := by
    refine ⟨?_, ?_, ?_, ?_, ?_⟩ <;>
      · rintro rfl
        cases hc
  obtain ⟨hcaret, htilde, hlt, hgt, heq⟩ := hne
  cases operator with
  | equal =>
    obtain rfl | hsign := List.mem_cons.mp hsign
    · rw [List.nil_append]
      unfold readOperator
      split <;> simp_all
    · rw [List.mem_singleton.mp hsign]
      rfl
  | caret =>
    rw [List.mem_singleton.mp hsign]
    rfl
  | tilde =>
    obtain rfl | hsign := List.mem_cons.mp hsign
    · show readOperator ('~' :: c :: rest) = _
      unfold readOperator
      split <;> simp_all
    · rw [List.mem_singleton.mp hsign]
      rfl
  | above =>
    rw [List.mem_singleton.mp hsign]
    show readOperator ('>' :: c :: rest) = _
    unfold readOperator
    split <;> simp_all
  | atLeast =>
    rw [List.mem_singleton.mp hsign]
    rfl
  | below =>
    rw [List.mem_singleton.mp hsign]
    show readOperator ('<' :: c :: rest) = _
    unfold readOperator
    split <;> simp_all
  | atMost =>
    rw [List.mem_singleton.mp hsign]
    rfl

theorem readOperator_sound {token : List Char} (h : readOperator token = (operator, text)) :
    ∃ sign ∈ operator.texts, token = sign ++ text := by
  unfold readOperator at h
  split at h <;> obtain ⟨rfl, rfl⟩ := Prod.mk.inj h
  · exact ⟨['^'], by decide, rfl⟩
  · exact ⟨['~', '>'], by decide, rfl⟩
  · exact ⟨['~'], by decide, rfl⟩
  · exact ⟨['>', '='], by decide, rfl⟩
  · exact ⟨['<', '='], by decide, rfl⟩
  · exact ⟨['>'], by decide, rfl⟩
  · exact ⟨['<'], by decide, rfl⟩
  · exact ⟨['='], by decide, rfl⟩
  · exact ⟨[], by decide, rfl⟩

/-! ## The bounds of partial versions -/

section Bounds

variable {v : Version} {n : Numbers}

/-- The first version that numbers stand for. -/
theorem start_le_iff : n.start ≤ v.key ↔ (Partial.of n).AtLeast v := by
  rw [Key.le_iff]
  cases n with
  | major a =>
    simp only [Numbers.start, Version.key, Partial.AtLeast, true_or, and_true]
    omega
  | minor a b =>
    simp only [Numbers.start, Version.key, Partial.AtLeast, true_or, and_true]
    omega
  | patch a b c prerelease =>
    simp only [Numbers.start, Version.key, Partial.AtLeast, or_true, and_true]
    omega

theorem lt_start_iff : v.key < n.start ↔ ¬ (Partial.of n).AtLeast v := by
  rw [← not_le, start_le_iff]

/-- The first version after those that partial numbers stand for. -/
theorem after_le_iff (hn : n.exact = false) : n.after ≤ v.key ↔ (Partial.of n).Above v := by
  rw [Key.le_iff]
  cases n with
  | major a =>
    simp only [Numbers.after, Version.key, Partial.Above, true_or, and_true]
    omega
  | minor a b =>
    simp only [Numbers.after, Version.key, Partial.Above, true_or, and_true]
    omega
  | patch a b c prerelease => cases hn

theorem lt_after_iff (hn : n.exact = false) : v.key < n.after ↔ ¬ (Partial.of n).Above v := by
  rw [← not_le, after_le_iff hn]

/-- A whole version stands for itself only. -/
theorem start_lt_iff (hn : n.exact = true) : n.start < v.key ↔ (Partial.of n).Above v := by
  rw [Key.lt_iff]
  cases n with
  | major a => cases hn
  | minor a b => cases hn
  | patch a b c prerelease =>
    cases prerelease with
    | false =>
      simp only [Numbers.start, Version.key, Partial.Above, Bool.not_false, Bool.true_eq_false,
        Bool.false_eq_true, and_true, and_false, or_false]
    | true =>
      simp only [Numbers.start, Version.key, Partial.Above, Bool.not_true, and_true]

theorem le_start_iff (hn : n.exact = true) : v.key ≤ n.start ↔ ¬ (Partial.of n).Above v := by
  rw [← not_lt, start_lt_iff hn]

/-- What is neither before nor after the versions of a partial one is one of them. -/
theorem names_iff {p : Partial} : p.Names v ↔ p.AtLeast v ∧ ¬ p.Above v := by
  cases p with
  | any => exact ⟨fun _ => ⟨trivial, id⟩, fun _ => trivial⟩
  | of n =>
    cases n with
    | major a =>
      simp only [Partial.Names, Partial.AtLeast, Partial.Above]
      omega
    | minor a b =>
      simp only [Partial.Names, Partial.AtLeast, Partial.Above]
      omega
    | patch a b c prerelease =>
      rw [Partial.Names, Version.ext_iff]
      cases prerelease with
      | false =>
        simp only [Partial.AtLeast, Partial.Above, Bool.false_eq_true, and_true, and_false, or_false]
        omega
      | true =>
        simp only [Partial.AtLeast, Partial.Above, Bool.true_eq_false, and_true, and_false,
          false_iff]
        omega

/-- The end of a tilde range. -/
theorem lt_line_iff (h : (Partial.of n).AtLeast v) :
    v.key < n.line.after ↔ (Partial.of n).SameLine v := by
  rw [Key.lt_iff]
  cases n with
  | major a =>
    simp only [Partial.AtLeast] at h
    simp only [Numbers.line, Numbers.after, Version.key, Partial.SameLine, Bool.true_eq_false,
      false_and, and_false, or_false]
    omega
  | minor a b =>
    simp only [Partial.AtLeast] at h
    simp only [Numbers.line, Numbers.after, Version.key, Partial.SameLine, Bool.true_eq_false,
      false_and, and_false, or_false]
    omega
  | patch a b c prerelease =>
    simp only [Partial.AtLeast] at h
    simp only [Numbers.line, Numbers.after, Version.key, Partial.SameLine, Bool.true_eq_false,
      false_and, and_false, or_false]
    omega

/-- The end of a caret range. -/
theorem lt_caretEnd_iff (h : (Partial.of n).AtLeast v) :
    v.key < n.caretEnd ↔ (Partial.of n).Keeps v := by
  rw [Key.lt_iff]
  cases n with
  | major a =>
    simp only [Partial.AtLeast] at h
    simp only [Numbers.caretEnd, Version.key, Partial.Keeps, Bool.true_eq_false, false_and,
      and_false, or_false]
    omega
  | minor a b =>
    simp only [Partial.AtLeast] at h
    simp only [Numbers.caretEnd, Partial.Keeps]
    by_cases ha : a ≠ 0
    · rw [if_pos ha]
      simp only [Version.key, Bool.true_eq_false, false_and, and_false, or_false]
      omega
    · rw [if_neg ha]
      simp only [Version.key, Bool.true_eq_false, false_and, and_false, or_false]
      omega
  | patch a b c prerelease =>
    simp only [Partial.AtLeast] at h
    simp only [Numbers.caretEnd, Partial.Keeps]
    by_cases ha : a ≠ 0
    · rw [if_pos ha]
      simp only [Version.key, Bool.true_eq_false, false_and, and_false, or_false]
      omega
    · rw [if_neg ha]
      by_cases hb : b ≠ 0
      · rw [if_pos hb]
        simp only [Version.key, Bool.true_eq_false, false_and, and_false, or_false]
        omega
      · rw [if_neg hb]
        simp only [Version.key, Bool.true_eq_false, false_and, and_false, or_false]
        omega

end Bounds

/-! ## Intervals -/

theorem admits_any (key : Key) : any.admits key = true := rfl

theorem admits_nothing (v : Version) : nothing.admits v.key = false := by
  by_contra h
  rw [Bool.not_eq_false] at h
  have hlt := Bound.isAbove_exclusive.mp (Span.admits_iff.mp h).2
  rw [Key.lt_iff] at hlt
  simp only [Version.key, Bool.true_eq_false, false_and, and_false, or_false] at hlt
  omega

/-- The interval of an operator has the releases for which its condition holds. -/
theorem admits_ofNumbers {n : Numbers} {v : Version} :
    (operator.ofNumbers n).admits v.key = true ↔ operator.Holds v (.of n) := by
  rw [Span.admits_iff]
  cases operator with
  | equal =>
    rw [Operator.ofNumbers, Operator.Holds, names_iff]
    cases hn : n.exact with
    | true =>
      rw [if_pos rfl, Option.all_some, Option.all_some, Bound.isBelow_inclusive,
        Bound.isAbove_inclusive, start_le_iff, le_start_iff hn]
    | false =>
      rw [if_neg Bool.false_ne_true, Option.all_some, Option.all_some, Bound.isBelow_inclusive,
        Bound.isAbove_exclusive, start_le_iff, lt_after_iff hn]
  | caret =>
    rw [Operator.ofNumbers, Operator.Holds, Option.all_some, Option.all_some,
      Bound.isBelow_inclusive, Bound.isAbove_exclusive, start_le_iff]
    exact and_congr_right fun h => lt_caretEnd_iff h
  | tilde =>
    rw [Operator.ofNumbers, Operator.Holds, Option.all_some, Option.all_some,
      Bound.isBelow_inclusive, Bound.isAbove_exclusive, start_le_iff]
    exact and_congr_right fun h => lt_line_iff h
  | above =>
    rw [Operator.ofNumbers, Operator.Holds, Option.all_none, Option.all_some, and_iff_left rfl]
    cases hn : n.exact with
    | true => rw [if_pos rfl, Bound.isBelow_exclusive, start_lt_iff hn]
    | false => rw [if_neg Bool.false_ne_true, Bound.isBelow_inclusive, after_le_iff hn]
  | atLeast =>
    rw [Operator.ofNumbers, Operator.Holds, Option.all_none, Option.all_some, and_iff_left rfl,
      Bound.isBelow_inclusive, start_le_iff]
  | below =>
    rw [Operator.ofNumbers, Operator.Holds, Option.all_none, Option.all_some, and_iff_right rfl,
      Bound.isAbove_exclusive, lt_start_iff]
  | atMost =>
    rw [Operator.ofNumbers, Operator.Holds, Option.all_none, Option.all_some, and_iff_right rfl]
    cases hn : n.exact with
    | true => rw [if_pos rfl, Bound.isAbove_inclusive, le_start_iff hn]
    | false => rw [if_neg Bool.false_ne_true, Bound.isAbove_exclusive, lt_after_iff hn]

theorem admits_interval {p : Partial} {v : Version} :
    (operator.interval p).admits v.key = true ↔ operator.Holds v p := by
  cases p with
  | of n =>
    have hinterval : operator.interval (.of n) = operator.ofNumbers n := by
      cases operator <;> rfl
    rw [hinterval, admits_ofNumbers]
  | any =>
    cases operator with
    | equal => exact iff_of_true (admits_any _) trivial
    | caret => exact iff_of_true (admits_any _) ⟨trivial, trivial⟩
    | tilde => exact iff_of_true (admits_any _) ⟨trivial, trivial⟩
    | above => exact iff_of_false (Bool.eq_false_iff.mp (admits_nothing v)) id
    | atLeast => exact iff_of_true (admits_any _) trivial
    | below => exact iff_of_false (Bool.eq_false_iff.mp (admits_nothing v)) (· trivial)
    | atMost => exact iff_of_true (admits_any _) id

end RuntimeVersions
end OpenstackPlatform
