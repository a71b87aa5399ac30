import OpenstackPlatform.Library.Text
import Mathlib.Data.Nat.Digits.Defs
import Mathlib.Data.Nat.Digits.Lemmas
import Mathlib.Data.List.Sort
import Mathlib.Order.Lex
import Mathlib.Data.List.Lex

/-!
# JSON texts

JSON as Python's `json` module writes and reads it.  `dumps` is the compact ASCII writer with
sorted keys; `loads` is the reader, which keeps the members of an object in the order of the text,
duplicates included, and refuses the constants `NaN`, `Infinity` and `-Infinity`.

A number with a fraction or an exponent is kept as the decimal it was written as; the reader's
binary float is the one nearest to it.  The interpreter's recursion limit is left out: the reader
here never gives up on depth.

* `Value`: what a JSON text denotes.
* `escape`, `dumpString`, `digits`, `dump`, `dumps`: the writer.
* `scanString`, `scanNumber`, `scan`, `loads`: the reader.
* `Value.Plain`: values the writer and the reader agree on.
* `loads_dump`, `loads_dumps`: what was written is read back.
* `isPrintable_dump`: the writer writes printable ASCII.
* `stringSize`, `memberSize`: the sizes of what is written.
* `loadsBytes`: the reader of bytes, with `loadsBytes_dumps`.
-/

namespace OpenstackPlatform
namespace Library
namespace JsonText

open Text

/-- What a JSON text denotes; `float m e` is the float nearest to `m * 10 ^ e`. -/
inductive Value where
  | null
  | bool (value : Bool)
  | int (value : Int)
  | float (mantissa exponent : Int)
  | str (value : Text)
  | arr (items : List Value)
  | obj (members : List (Text × Value))
  deriving Repr

/-! ## The writer -/

/-- A hexadecimal digit. -/
def hexDigit (n : Nat) : Nat := if n < 10 then 48 + n else 87 + n

/-- `\uXXXX` -/
def escapeUnit (u : Nat) : Text :=
  [92, 117, hexDigit (u / 0x1000 % 16), hexDigit (u / 0x100 % 16), hexDigit (u / 0x10 % 16),
    hexDigit (u % 16)]

/-- One code point inside an encoded string, with `ensure_ascii`. -/
def escape (c : Nat) : Text :=
  if c = 34 then [92, 34]
  else if c = 92 then [92, 92]
  else if c = 10 then [92, 110]
  else if c = 13 then [92, 114]
  else if c = 9 then [92, 116]
  else if c = 12 then [92, 102]
  else if c = 8 then [92, 98]
  else if 32 ≤ c ∧ c < 127 then [c]
  else if c < 0x10000 then escapeUnit c
  else escapeUnit (0xD800 + (c - 0x10000) / 0x400) ++ escapeUnit (0xDC00 + (c - 0x10000) % 0x400)

/-- An encoded string. -/
def dumpString (s : Text) : Text := 34 :: s.flatMap escape ++ [34]

/-- The decimal digits of a number. -/
def digits (n : Nat) : Text :=
  if n = 0 then [48] else (Nat.digits 10 n).reverse.map (48 + ·)

/-- An encoded integer. -/
def dumpInt : Int → Text
  | .ofNat n => digits n
  | .negSucc n => 45 :: digits (n + 1)

mutual

/-- The compact encoding of a value.  Floats are not written here. -/
def dump : Value → Text
  | .null => Text.ofString "null"
  | .bool true => Text.ofString "true"
  | .bool false => Text.ofString "false"
  | .int n => dumpInt n
  | .float _ _ => []
  | .str s => dumpString s
  | .arr items => 91 :: dumpItems items ++ [93]
  | .obj members => 123 :: dumpMembers members ++ [125]

/-- The items of an array, with commas between them. -/
def dumpItems : List Value → Text
  | [] => []
  | item :: items => dump item ++ dumpMoreItems items

/-- The items of an array after the first. -/
def dumpMoreItems : List Value → Text
  | [] => []
  | item :: items => 44 :: dump item ++ dumpMoreItems items

/-- The members of an object, with commas between them. -/
def dumpMembers : List (Text × Value) → Text
  | [] => []
  | (key, value) :: members => dumpString key ++ 58 :: dump value ++ dumpMoreMembers members

/-- The members of an object after the first. -/
def dumpMoreMembers : List (Text × Value) → Text
  | [] => []
  | (key, value) :: members =>
    44 :: dumpString key ++ 58 :: dump value ++ dumpMoreMembers members

end

/-- The order of `sort_keys`. -/
def keyLE (a b : Text × Value) : Prop := a.1 ≤ b.1

instance : DecidableRel keyLE := fun a b => inferInstanceAs (Decidable (a.1 ≤ b.1))

mutual

/-- The value with the members of every object in the order of their keys. -/
def sortKeys : Value → Value
  | .arr items => .arr (sortItems items)
  | .obj members => .obj ((sortMembers members).insertionSort keyLE)
  | .null => .null
  | .bool b => .bool b
  | .int n => .int n
  | .float m e => .float m e
  | .str s => .str s

/-- `sortKeys` of each item. -/
def sortItems : List Value → List Value
  | [] => []
  | item :: items => sortKeys item :: sortItems items

/-- `sortKeys` of each member's value. -/
def sortMembers : List (Text × Value) → List (Text × Value)
  | [] => []
  | (key, value) :: members => (key, sortKeys value) :: sortMembers members

end

/-- `json.dumps(value, sort_keys=True, separators=(",", ":"), ensure_ascii=True)` -/
def dumps (value : Value) : Text := dump (sortKeys value)

/-! ## The reader -/

/-- Space, tab, line feed and carriage return. -/
def isBlank (c : Nat) : Bool := c == 32 || c == 9 || c == 10 || c == 13

/-- The text from its first character that is not blank. -/
def skipBlanks (t : Text) : Text := t.dropWhile isBlank

/-- The value of a hexadecimal digit. -/
def hexValue (c : Nat) : Option Nat :=
  if 48 ≤ c ∧ c ≤ 57 then some (c - 48)
  else if 97 ≤ c ∧ c ≤ 102 then some (c - 87)
  else if 65 ≤ c ∧ c ≤ 70 then some (c - 55)
  else none

/-- Four hexadecimal digits. -/
def hexUnit (a b c d : Nat) : Option Nat :=
  match hexValue a, hexValue b, hexValue c, hexValue d with
  | some a, some b, some c, some d => some (a * 0x1000 + b * 0x100 + c * 0x10 + d)
  | _, _, _, _ => none

/-- The character of a short escape. -/
def unescape (c : Nat) : Option Nat :=
  if c = 34 then some 34
  else if c = 92 then some 92
  else if c = 47 then some 47
  else if c = 98 then some 8
  else if c = 102 then some 12
  else if c = 110 then some 10
  else if c = 114 then some 13
  else if c = 116 then some 9
  else none

/-- One escape after its backslash: the character, and what follows.  A high surrogate joins the
low surrogate that is escaped right after it. -/
def scanEscape : Text → Option (Nat × Text)
  | [] => none
  | e :: rest =>
    if e = 117 then
      match rest with
      | a :: b :: c :: d :: rest =>
        match hexUnit a b c d with
        | none => none
        | some high =>
          if isHigh high then
            match rest with
            | 92 :: 117 :: a :: b :: c :: d :: more =>
              match hexUnit a b c d with
              | none => none
              | some low => some (if isLow low then (join high low, more) else (high, rest))
            | _ => some (high, rest)
          else some (high, rest)
      | _ => none
    else (unescape e).map fun c => (c, rest)

/-- The rest of a string after its opening quote, and what follows the closing one.  The number
bounds the characters read. -/
def scanString : Nat → Text → Option (Text × Text)
  | 0, _ => none
  | _ + 1, [] => none
  | fuel + 1, c :: rest =>
    if c = 34 then some ([], rest)
    else if c = 92 then
      match scanEscape rest with
      | none => none
      | some (d, rest) => (scanString fuel rest).map fun r => (d :: r.1, r.2)
    else if c < 32 then none
    else (scanString fuel rest).map fun r => (c :: r.1, r.2)

/-- An ASCII digit. -/
def isDigit (c : Nat) : Bool := 48 ≤ c && c ≤ 57

/-- The number a run of digits stands for. -/
def decimal (t : Text) : Nat := t.foldl (fun n c => 10 * n + (c - 48)) 0

/-- `sys.int_info.default_max_str_digits`: longer integers are refused. -/
def maxDigits : Nat := 4300

/-- The run of digits at the start of a text that can be the integer part of a number. -/
def integerPart (t : Text) : Option Text :=
  match t with
  | [] => none
  | c :: rest =>
    if c = 48 then some [48]
    else if isDigit c then some (c :: rest.takeWhile isDigit)
    else none

/-- The digits of a fraction, when the text starts with one. -/
def fractionPart : Text → Option Text
  | 46 :: c :: rest => if isDigit c then some (c :: rest.takeWhile isDigit) else none
  | _ => none

/-- The sign of an exponent: whether it is negative, and the length of the sign. -/
def exponentSign : Text → Bool × Nat
  | 45 :: _ => (true, 1)
  | 43 :: _ => (false, 1)
  | _ => (false, 0)

/-- The exponent, when the text starts with one, and its length. -/
def exponentPart : Text → Option (Int × Nat)
  | c :: rest =>
    if c = 101 ∨ c = 69 then
      let run := (rest.drop (exponentSign rest).2).takeWhile isDigit
      if run.isEmpty then none
      else
        let n : Int := decimal run
        some (if (exponentSign rest).1 then -n else n, 1 + (exponentSign rest).2 + run.length)
    else none
  | [] => none

/-- A number without its sign, and what follows it. -/
def scanUnsigned (negative : Bool) (t : Text) : Option (Value × Text) :=
  match integerPart t with
  | none => none
  | some whole =>
    let sign : Int := if negative then -1 else 1
    let rest := t.drop whole.length
    let fraction := (fractionPart rest).getD []
    let rest := if fraction.isEmpty then rest else rest.drop (fraction.length + 1)
    match exponentPart rest with
    | some (e, length) =>
      some (.float (sign * decimal (whole ++ fraction)) (e - fraction.length), rest.drop length)
    | none =>
      if fraction.isEmpty then
        if whole.length ≤ maxDigits then some (.int (sign * decimal whole), rest) else none
      else some (.float (sign * decimal (whole ++ fraction)) (-fraction.length), rest)

/-- A number and what follows it. -/
def scanNumber : Text → Option (Value × Text)
  | 45 :: rest => scanUnsigned true rest
  | t => scanUnsigned false t

/-- What follows a word at the start of a text. -/
def afterWord (word : String) (t : Text) : Option Text :=
  if (Text.ofString word).isPrefixOf t then some (t.drop word.length) else none

mutual

/-- A value and what follows it; the number bounds the length of the text. -/
def scan : Nat → Text → Option (Value × Text)
  | 0, _ => none
  | _ + 1, [] => none
  | fuel + 1, c :: rest =>
    if c = 34 then (scanString (fuel + 1) rest).map fun r => (.str r.1, r.2)
    else if c = 123 then
      match skipBlanks rest with
      | 125 :: rest => some (.obj [], rest)
      | rest => (scanMembers fuel rest).map fun r => (.obj r.1, r.2)
    else if c = 91 then
      match skipBlanks rest with
      | 93 :: rest => some (.arr [], rest)
      | rest => (scanItems fuel rest).map fun r => (.arr r.1, r.2)
    else if c = 110 then (afterWord "ull" rest).map fun rest => (.null, rest)
    else if c = 116 then (afterWord "rue" rest).map fun rest => (.bool true, rest)
    else if c = 102 then (afterWord "alse" rest).map fun rest => (.bool false, rest)
    else scanNumber (c :: rest)

/-- The items of an array from a text that starts with one, to the closing bracket. -/
def scanItems : Nat → Text → Option (List Value × Text)
  | 0, _ => none
  | fuel + 1, t =>
    match scan fuel t with
    | none => none
    | some (item, rest) =>
      match skipBlanks rest with
      | 93 :: rest => some ([item], rest)
      | 44 :: rest => (scanItems fuel (skipBlanks rest)).map fun r => (item :: r.1, r.2)
      | _ => none

/-- The members of an object from a text that starts with one, to the closing brace. -/
def scanMembers : Nat → Text → Option (List (Text × Value) × Text)
  | 0, _ => none
  | fuel + 1, t =>
    match t with
    | 34 :: rest =>
      match scanString (fuel + 1) rest with
      | none => none
      | some (key, rest) =>
        match skipBlanks rest with
        | 58 :: rest =>
          match scan fuel (skipBlanks rest) with
          | none => none
          | some (value, rest) =>
            match skipBlanks rest with
            | 125 :: rest => some ([(key, value)], rest)
            | 44 :: rest =>
              (scanMembers fuel (skipBlanks rest)).map fun r => ((key, value) :: r.1, r.2)
            | _ => none
        | _ => none
    | _ => none

end

/-- The value a text denotes. -/
def loads (t : Text) : Option Value :=
  match scan (t.length + 1) (skipBlanks t) with
  | none => none
  | some (value, rest) => if (skipBlanks rest).isEmpty then some value else none

/-! ## Strings are read back -/

theorem hexValue_hexDigit {n : Nat} (h : n < 16) : hexValue (hexDigit n) = some n := by
  rw [hexDigit]
  by_cases h10 : n < 10
  · rw [if_pos h10, hexValue, if_pos (by omega)]
    congr 1
    omega
  · rw [if_neg h10, hexValue, if_neg (by omega), if_pos (by omega)]
    congr 1
    omega

/-- The four digits of a unit are read back. -/
theorem hexUnit_hexDigit {u : Nat} (h : u < 0x10000) :
    hexUnit (hexDigit (u / 0x1000 % 16)) (hexDigit (u / 0x100 % 16)) (hexDigit (u / 0x10 % 16))
      (hexDigit (u % 16)) = some u := by
  have hvalue : ∀ n, n % 16 < 16 := fun n => Nat.mod_lt n (by decide)
  simp only [hexUnit, hexValue_hexDigit (hvalue _), Option.some.injEq]
  omega

/-- An escaped unit that is not a high surrogate is one character. -/
theorem scanEscape_unit {u : Nat} (h : u < 0x10000) (hu : isHigh u = false) (rest : Text) :
    scanEscape ((escapeUnit u).tail ++ rest) = some (u, rest) := by
  have hunit := hexUnit_hexDigit h
  simp only [escapeUnit, List.tail_cons, List.cons_append, List.nil_append, scanEscape, if_true,
    hunit, hu, Bool.false_eq_true, if_false]

/-- Two escaped surrogates are the character they stand for. -/
theorem scanEscape_pair {u v : Nat} (hu : isHigh u = true) (hv : isLow v = true) (rest : Text) :
    scanEscape ((escapeUnit u).tail ++ escapeUnit v ++ rest) = some (join u v, rest) := by
  have hu' : u < 0x10000 := by
    simp only [isHigh, Bool.and_eq_true, decide_eq_true_eq] at hu
    omega
  have hv' : v < 0x10000 := by
    simp only [isLow, Bool.and_eq_true, decide_eq_true_eq] at hv
    omega
  have hunit := hexUnit_hexDigit hu'
  have hunit' := hexUnit_hexDigit hv'
  simp only [escapeUnit, List.tail_cons, List.cons_append, List.nil_append, scanEscape, if_true,
    hunit, hunit', hu, hv]

theorem join_add (a b : Nat) : join (0xD800 + a) (0xDC00 + b) = 0x10000 + a * 0x400 + b := by
  unfold join
  omega

variable {c : Nat}

/-- The surrogates of a code point stand for it. -/
theorem join_surrogates (h : 0x10000 ≤ c) :
    join (0xD800 + (c - 0x10000) / 0x400) (0xDC00 + (c - 0x10000) % 0x400) = c :=
  (join_add _ _).trans (by omega)

/-- The characters with a short escape. -/
theorem escape_eq_short {e : Nat} (h : escape c = [92, e]) (he : e ≠ 117) (hc : unescape e = some c)
    (fuel : Nat) (rest : Text) : scanString (fuel + 1) (escape c ++ rest) =
      (scanString fuel rest).map fun r => (c :: r.1, r.2) := by
  rw [h, List.cons_append, List.cons_append, List.nil_append, scanString]
  simp only [show (92 : Nat) ≠ 34 by decide, if_false, if_true, scanEscape, he, hc, Option.map_some]

/-- One encoded character is read back in one step. -/
theorem scanString_escape (hc : isScalar c = true) (fuel : Nat) (rest : Text) :
    scanString (fuel + 1) (escape c ++ rest) =
      (scanString fuel rest).map fun r => (c :: r.1, r.2) := by
  by_cases h34 : c = 34
  · subst h34
    exact escape_eq_short (e := 34) rfl (by decide) rfl fuel rest
  by_cases h92 : c = 92
  · subst h92
    exact escape_eq_short (e := 92) rfl (by decide) rfl fuel rest
  by_cases h10 : c = 10
  · subst h10
    exact escape_eq_short (e := 110) rfl (by decide) rfl fuel rest
  by_cases h13 : c = 13
  · subst h13
    exact escape_eq_short (e := 114) rfl (by decide) rfl fuel rest
  by_cases h9 : c = 9
  · subst h9
    exact escape_eq_short (e := 116) rfl (by decide) rfl fuel rest
  by_cases h12 : c = 12
  · subst h12
    exact escape_eq_short (e := 102) rfl (by decide) rfl fuel rest
  by_cases h8 : c = 8
  · subst h8
    exact escape_eq_short (e := 98) rfl (by decide) rfl fuel rest
  obtain ⟨⟨hmax, hhigh⟩, hlow⟩ : (c < 0x110000 ∧ isHigh c = false) ∧ isLow c = false := by
    simpa only [isScalar, Bool.and_eq_true, decide_eq_true_eq, Bool.not_eq_true'] using hc
  rw [escape, if_neg h34, if_neg h92, if_neg h10, if_neg h13, if_neg h9, if_neg h12, if_neg h8]
  by_cases hplain : 32 ≤ c ∧ c < 127
  · rw [if_pos hplain, List.singleton_append, scanString, if_neg h34, if_neg h92,
      if_neg (by omega)]
  rw [if_neg hplain]
  by_cases hsmall : c < 0x10000
  · have hesc := scanEscape_unit hsmall hhigh rest
    rw [if_pos hsmall, escapeUnit, List.cons_append, scanString, if_neg (by decide),
      if_pos rfl]
    rw [escapeUnit, List.tail_cons] at hesc
    rw [hesc]
  · have hu : isHigh (0xD800 + (c - 0x10000) / 0x400) = true := by
      simp only [isHigh, Bool.and_eq_true, decide_eq_true_eq]
      omega
    have hv : isLow (0xDC00 + (c - 0x10000) % 0x400) = true := by
      simp only [isLow, Bool.and_eq_true, decide_eq_true_eq]
      omega
    have hjoin := join_surrogates (by omega : 0x10000 ≤ c)
    have hesc := scanEscape_pair hu hv rest
    rw [if_neg hsmall, escapeUnit, List.cons_append, List.cons_append, scanString,
      if_neg (by decide), if_pos rfl]
    rw [escapeUnit, List.tail_cons, hjoin] at hesc
    rw [hesc]

/-- An encoded string is read back. -/
theorem scanString_flatMap : ∀ {s : Text} {fuel : Nat}, s.all isScalar = true → s.length < fuel →
    ∀ rest, scanString fuel (s.flatMap escape ++ 34 :: rest) = some (s, rest)
  | [], fuel, _, hfuel, rest => by
    obtain ⟨n, rfl⟩ : ∃ n, fuel = n + 1 := ⟨fuel - 1, by omega⟩
    rw [List.flatMap_nil, List.nil_append, scanString, if_pos rfl]
  | c :: s, fuel, hs, hfuel, rest => by
    obtain ⟨n, rfl⟩ : ∃ n, fuel = n + 1 := ⟨fuel - 1, by omega⟩
    obtain ⟨hc, hs⟩ := Bool.and_eq_true_iff.mp hs
    rw [List.length_cons] at hfuel
    rw [List.flatMap_cons, List.append_assoc, scanString_escape hc,
      scanString_flatMap hs (by omega), Option.map_some]

/-! ## Numbers are read back -/

theorem decimal_append (s t : Text) :
    decimal (s ++ t) = t.foldl (fun n c => 10 * n + (c - 48)) (decimal s) := by
  rw [decimal, List.foldl_append, decimal]

/-- The digits of a number, least first. -/
theorem decimal_reverse_digits : ∀ l : List Nat,
    decimal (l.reverse.map (48 + ·)) = Nat.ofDigits 10 l
  | [] => rfl
  | d :: l => by
    rw [List.reverse_cons, List.map_append, decimal_append, decimal_reverse_digits l,
      Nat.ofDigits_cons]
    simp only [List.map_cons, List.map_nil, List.foldl_cons, List.foldl_nil]
    omega

theorem decimal_digits (n : Nat) : decimal (digits n) = n := by
  by_cases h : n = 0
  · subst h
    rfl
  · rw [digits, if_neg h, decimal_reverse_digits, Nat.ofDigits_digits]

theorem isDigit_of_mem_digits {n : Nat} (h : c ∈ digits n) : isDigit c = true := by
  rw [digits] at h
  split at h
  · rw [List.mem_singleton] at h
    subst h
    rfl
  · obtain ⟨d, hd, rfl⟩ := List.mem_map.mp h
    have hlt := Nat.digits_lt_base (by omega : 1 < 10) (List.mem_reverse.mp hd)
    simp only [isDigit, Bool.and_eq_true, decide_eq_true_eq]
    omega

/-- The digits of a number are `0` alone, or start with another digit. -/
theorem digits_cases (n : Nat) :
    digits n = [48] ∨ ∃ c t, digits n = c :: t ∧ c ≠ 48 ∧ isDigit c = true ∧
      ∀ d ∈ t, isDigit d = true := by
  by_cases h : n = 0
  · exact .inl (by rw [digits, if_pos h])
  · have hne : Nat.digits 10 n ≠ [] := Nat.digits_ne_nil_iff_ne_zero.mpr h
    have hlast := Nat.getLast_digit_ne_zero 10 h
    obtain ⟨l, d, hl⟩ : ∃ l d, Nat.digits 10 n = l ++ [d] :=
      ⟨_, _, (List.dropLast_append_getLast hne).symm⟩
    simp only [hl, List.getLast_append_singleton] at hlast
    have heq : digits n = (48 + d) :: l.reverse.map (48 + ·) := by
      rw [digits, if_neg h, hl, List.reverse_append, List.reverse_singleton, List.singleton_append,
        List.map_cons]
    refine .inr ⟨48 + d, _, heq, by omega, ?_, ?_⟩
    · exact isDigit_of_mem_digits (n := n) (by rw [heq]; exact List.mem_cons_self)
    · intro c hc
      exact isDigit_of_mem_digits (n := n) (by rw [heq]; exact List.mem_cons_of_mem _ hc)

/-- The text is at an end, or at what ends a value inside an array or an object. -/
def Ends (rest : Text) : Prop := ∀ c ∈ rest.head?, c = 44 ∨ c = 93 ∨ c = 125

theorem Ends.nil : Ends [] := by
  intro c hc
  cases hc

theorem ends_cons (h : c = 44 ∨ c = 93 ∨ c = 125) (t : Text) : Ends (c :: t) := by
  intro d hd
  cases hd
  exact h

variable {rest : Text}

theorem takeWhile_isDigit_append {t : Text} (h : ∀ c ∈ t, isDigit c = true) (hrest : Ends rest) :
    (t ++ rest).takeWhile isDigit = t := by
  rw [List.takeWhile_append_of_pos h]
  cases rest with
  | nil => rw [List.takeWhile_nil, List.append_nil]
  | cons c rest =>
    have hc : isDigit c = false := by
      rcases hrest c rfl with rfl | rfl | rfl <;> rfl
    rw [List.takeWhile_cons_of_neg (by rw [hc]; decide), List.append_nil]

theorem integerPart_digits (n : Nat) (hrest : Ends rest) :
    integerPart (digits n ++ rest) = some (digits n) := by
  rcases digits_cases n with h | ⟨c, t, h, hc, hdigit, ht⟩
  · rw [h]
    rfl
  · rw [h, List.cons_append, integerPart, if_neg hc, if_pos hdigit,
      takeWhile_isDigit_append ht hrest]

theorem fractionPart_ends (h : Ends rest) : fractionPart rest = none := by
  match rest with
  | [] => rfl
  | [c] =>
    rw [fractionPart]
    rintro d t ht
    cases ht
  | c :: d :: rest =>
    rcases h c rfl with rfl | rfl | rfl <;> rfl

theorem exponentPart_ends (h : Ends rest) : exponentPart rest = none := by
  cases rest with
  | nil => rfl
  | cons c rest =>
    rcases h c rfl with rfl | rfl | rfl <;> rfl

theorem scanUnsigned_digits (negative : Bool) {n : Nat} (hn : (digits n).length ≤ maxDigits)
    (hrest : Ends rest) : scanUnsigned negative (digits n ++ rest) =
      some (.int ((if negative then -1 else 1) * n), rest) := by
  simp only [scanUnsigned, integerPart_digits n hrest, List.drop_left, fractionPart_ends hrest,
    exponentPart_ends hrest, Option.getD_none, List.isEmpty_nil, if_true, if_pos hn,
    decimal_digits]

/-- An encoded integer is read back. -/
theorem scanNumber_dumpInt {n : Int} (hn : (digits n.natAbs).length ≤ maxDigits)
    (hrest : Ends rest) : scanNumber (dumpInt n ++ rest) = some (.int n, rest) := by
  cases n with
  | ofNat n =>
    have hunsigned := scanUnsigned_digits false (n := n) hn hrest
    rw [dumpInt, scanNumber, hunsigned]
    · simp
    · intro t ht
      have hdigit : isDigit 45 = true := by
        rcases digits_cases n with h | ⟨c, t', h, -, hc, -⟩
        · rw [h] at ht
          exact absurd (List.cons.inj ht).1 (by decide)
        · rw [h] at ht
          rw [← (List.cons.inj ht).1]
          exact hc
      cases hdigit
  | negSucc n =>
    have hunsigned := scanUnsigned_digits true (n := n + 1) hn hrest
    rw [dumpInt, List.cons_append, scanNumber, hunsigned]
    simp only [if_true, Option.some.injEq, Prod.mk.injEq, Value.int.injEq, and_true]
    omega

/-! ## Values are read back -/

mutual

/-- The value has no floats, no surrogates and no integer that is too long to read. -/
def Plain : Value → Prop
  | .int n => (digits n.natAbs).length ≤ maxDigits
  | .float _ _ => False
  | .str s => s.all isScalar = true
  | .arr items => PlainItems items
  | .obj members => PlainMembers members
  | .null | .bool _ => True

/-- `Plain` of each item. -/
def PlainItems : List Value → Prop
  | [] => True
  | item :: items => Plain item ∧ PlainItems items

/-- `Plain` of each member. -/
def PlainMembers : List (Text × Value) → Prop
  | [] => True
  | (key, value) :: members => key.all isScalar = true ∧ Plain value ∧ PlainMembers members

end

/-- What a value's encoding can start with. -/
def Starts (c : Nat) : Prop := isBlank c = false ∧ c ≠ 93 ∧ c ≠ 125

theorem starts_of_isDigit (h : isDigit c = true) : Starts c := by
  simp only [isDigit, Bool.and_eq_true, decide_eq_true_eq] at h
  refine ⟨?_, by omega, by omega⟩
  simp only [isBlank, Bool.or_eq_false_iff, beq_eq_false_iff_ne]
  omega

theorem exists_head_digits (n : Nat) : ∃ c t, digits n = c :: t ∧ isDigit c = true := by
  rcases digits_cases n with h | ⟨c, t, h, -, hc, -⟩
  · exact ⟨48, [], h, rfl⟩
  · exact ⟨c, t, h, hc⟩

/-- An encoded integer starts with a digit or a sign. -/
theorem exists_head_dumpInt (n : Int) :
    ∃ c t, dumpInt n = c :: t ∧ (isDigit c = true ∨ c = 45) := by
  cases n with
  | ofNat n =>
    obtain ⟨c, t, h, hc⟩ := exists_head_digits n
    exact ⟨c, t, h, .inl hc⟩
  | negSucc n => exact ⟨45, _, rfl, .inr rfl⟩

/-- The encoding of a value starts with a character that no list of items ends with. -/
theorem exists_head_dump {v : Value} (h : Plain v) : ∃ c t, dump v = c :: t ∧ Starts c := by
  cases v with
  | null => exact ⟨_, _, rfl, by decide, by decide, by decide⟩
  | bool b => cases b <;> exact ⟨_, _, rfl, by decide, by decide, by decide⟩
  | int n =>
    obtain ⟨c, t, hn, hc⟩ := exists_head_dumpInt n
    refine ⟨c, t, by rw [dump, hn], ?_⟩
    rcases hc with hc | rfl
    · exact starts_of_isDigit hc
    · exact ⟨rfl, by decide, by decide⟩
  | float m e => exact absurd h (by simp [Plain])
  | str s => exact ⟨34, _, by rw [dump, dumpString]; rfl, by decide, by decide, by decide⟩
  | arr items => exact ⟨91, _, by rw [dump]; rfl, by decide, by decide, by decide⟩
  | obj members => exact ⟨123, _, by rw [dump]; rfl, by decide, by decide, by decide⟩

theorem skipBlanks_of_starts (h : Starts c) (t : Text) : skipBlanks (c :: t) = c :: t := by
  rw [skipBlanks, List.dropWhile_cons_of_neg]
  rw [h.1]
  decide

theorem afterWord_ofString (word : String) (rest : Text) :
    afterWord word (Text.ofString word ++ rest) = some rest := by
  rw [afterWord, if_pos (List.isPrefixOf_iff_prefix.mpr (List.prefix_append _ _)),
    ← Text.length_ofString, List.drop_left]

/-- A number at the start of a value is read as a number. -/
theorem scan_number (h : isDigit c = true ∨ c = 45) (fuel : Nat) (t : Text) :
    scan (fuel + 1) (c :: t) = scanNumber (c :: t) := by
  have hc : c = 45 ∨ (48 ≤ c ∧ c ≤ 57) := by
    rcases h with h | h
    · simp only [isDigit, Bool.and_eq_true, decide_eq_true_eq] at h
      exact .inr h
    · exact .inl h
  rw [scan, if_neg (by omega), if_neg (by omega), if_neg (by omega), if_neg (by omega),
    if_neg (by omega), if_neg (by omega)]

theorem length_escape_pos (c : Nat) : 1 ≤ (escape c).length := by
  rw [escape]
  split_ifs <;> simp [escapeUnit]

theorem length_le_length_flatMap_escape : ∀ s : Text, s.length ≤ (s.flatMap escape).length
  | [] => Nat.le_refl _
  | c :: s => by
    have hc := length_escape_pos c
    have hs := length_le_length_flatMap_escape s
    rw [List.flatMap_cons, List.length_append, List.length_cons]
    omega

/-- An encoded string is read back by a reader with fuel for its encoding. -/
theorem scanString_dumpString {s : Text} (hs : s.all isScalar = true) {fuel : Nat}
    (hfuel : (dumpString s).length ≤ fuel) (rest : Text) :
    scanString fuel (s.flatMap escape ++ 34 :: rest) = some (s, rest) := by
  have hlen := length_le_length_flatMap_escape s
  rw [dumpString, List.length_append, List.length_cons, List.length_singleton] at hfuel
  exact scanString_flatMap hs (by omega) rest

/-- A bracket and the start of an item open an array with items. -/
theorem scan_bracket (hc : Starts c) (fuel : Nat) (t : Text) :
    scan (fuel + 1) (91 :: c :: t) = (scanItems fuel (c :: t)).map fun r => (.arr r.1, r.2) := by
  rw [scan, if_neg (by decide), if_neg (by decide), if_pos rfl, skipBlanks_of_starts hc]
  split
  · rename_i heq
    exact absurd (List.cons.inj heq).1 hc.2.1
  · rfl

/-- A brace and a quote open an object with members. -/
theorem scan_brace (fuel : Nat) (t : Text) :
    scan (fuel + 1) (123 :: 34 :: t) =
      (scanMembers fuel (34 :: t)).map fun r => (.obj r.1, r.2) := by
  rw [scan, if_neg (by decide), if_pos rfl]
  rfl

/-- The last item of an array. -/
theorem scanItems_last {fuel : Nat} {t : Text} {item : Value}
    (h : scan fuel t = some (item, 93 :: rest)) :
    scanItems (fuel + 1) t = some ([item], rest) := by
  rw [scanItems, h]
  rfl

/-- An item of an array before another one. -/
theorem scanItems_more {fuel : Nat} {t : Text} {item : Value}
    (h : scan fuel t = some (item, 44 :: c :: rest)) (hc : Starts c) :
    scanItems (fuel + 1) t =
      (scanItems fuel (c :: rest)).map fun r => (item :: r.1, r.2) := by
  have hskip := skipBlanks_of_starts hc rest
  rw [scanItems, h]
  simp only [show skipBlanks (44 :: c :: rest) = 44 :: c :: rest from rfl, hskip]

/-- The key and the value of a member. -/
theorem scanMembers_value {fuel : Nat} {key t : Text}
    (hkey : scanString (fuel + 1) t = some (key, 58 :: c :: rest)) (hc : Starts c) :
    scanMembers (fuel + 1) (34 :: t) =
      match scan fuel (c :: rest) with
      | none => none
      | some (value, rest) =>
        match skipBlanks rest with
        | 125 :: rest => some ([(key, value)], rest)
        | 44 :: rest =>
          (scanMembers fuel (skipBlanks rest)).map fun r => ((key, value) :: r.1, r.2)
        | _ => none := by
  have hskip := skipBlanks_of_starts hc rest
  rw [scanMembers]
  simp only [hkey, show skipBlanks (58 :: c :: rest) = 58 :: c :: rest from rfl, hskip]

theorem dumpItems_cons (item : Value) (items : List Value) (rest : Text) :
    dumpItems (item :: items) ++ rest = dump item ++ (dumpMoreItems items ++ rest) := by
  rw [dumpItems, List.append_assoc]

theorem dumpMoreItems_cons (item : Value) (items : List Value) (rest : Text) :
    dumpMoreItems (item :: items) ++ rest = 44 :: (dumpItems (item :: items) ++ rest) := by
  rw [dumpMoreItems, dumpItems, List.cons_append, List.cons_append]

theorem dumpMembers_cons (key : Text) (value : Value) (members : List (Text × Value))
    (rest : Text) :
    dumpMembers ((key, value) :: members) ++ rest =
      34 :: (key.flatMap escape ++ 34 :: 58 :: (dump value ++ (dumpMoreMembers members ++ rest))) := by
  simp only [dumpMembers, dumpString, List.cons_append, List.append_assoc, List.nil_append]

theorem dumpMoreMembers_cons (key : Text) (value : Value) (members : List (Text × Value))
    (rest : Text) :
    dumpMoreMembers ((key, value) :: members) ++ rest =
      44 :: (dumpMembers ((key, value) :: members) ++ rest) := by
  simp only [dumpMoreMembers, dumpMembers, List.cons_append]

theorem ends_dumpMoreItems (items : List Value) (rest : Text) :
    Ends (dumpMoreItems items ++ 93 :: rest) := by
  cases items with
  | nil => exact ends_cons (by decide) rest
  | cons item items =>
    rw [dumpMoreItems_cons]
    exact ends_cons (by decide) _

theorem ends_dumpMoreMembers (members : List (Text × Value)) (rest : Text) :
    Ends (dumpMoreMembers members ++ 125 :: rest) := by
  cases members with
  | nil => exact ends_cons (by decide) rest
  | cons member members =>
    rw [dumpMoreMembers_cons]
    exact ends_cons (by decide) _

mutual

/-- An encoded value is read back by a reader with fuel for its encoding. -/
theorem scan_dump : ∀ (v : Value) (_ : Plain v) (fuel : Nat) (_ : (dump v).length ≤ fuel)
    (rest : Text) (_ : Ends rest), scan (fuel + 1) (dump v ++ rest) = some (v, rest)
  | .null, _, fuel, _, rest, _ => by
    have h := afterWord_ofString "ull" rest
    rw [dump, show Text.ofString "null" = 110 :: Text.ofString "ull" from rfl, List.cons_append,
      scan, if_neg (by decide), if_neg (by decide), if_neg (by decide), if_pos rfl, h,
      Option.map_some]
  | .bool true, _, fuel, _, rest, _ => by
    have h := afterWord_ofString "rue" rest
    rw [dump, show Text.ofString "true" = 116 :: Text.ofString "rue" from rfl, List.cons_append,
      scan, if_neg (by decide), if_neg (by decide), if_neg (by decide), if_neg (by decide),
      if_pos rfl, h, Option.map_some]
  | .bool false, _, fuel, _, rest, _ => by
    have h := afterWord_ofString "alse" rest
    rw [dump, show Text.ofString "false" = 102 :: Text.ofString "alse" from rfl, List.cons_append,
      scan, if_neg (by decide), if_neg (by decide), if_neg (by decide), if_neg (by decide),
      if_neg (by decide), if_pos rfl, h, Option.map_some]
  | .int n, hv, fuel, _, rest, hrest => by
    obtain ⟨c, t, hn, hc⟩ := exists_head_dumpInt n
    have hnumber := scanNumber_dumpInt hv hrest
    rw [hn, List.cons_append] at hnumber
    rw [dump, hn, List.cons_append, scan_number hc, hnumber]
  | .float m e, hv, _, _, _, _ => absurd hv (by simp [Plain])
  | .str s, hv, fuel, hfuel, rest, _ => by
    have hs : s.all isScalar = true := by simpa only [Plain] using hv
    rw [dump] at hfuel
    rw [dump, dumpString, List.cons_append, List.cons_append, List.append_assoc,
      List.singleton_append, scan, if_pos rfl, scanString_dumpString hs (by omega),
      Option.map_some]
  | .arr [], _, fuel, _, rest, _ => by
    rw [dump, dumpItems, List.cons_append, List.nil_append, List.cons_append, scan,
      if_neg (by decide), if_neg (by decide), if_pos rfl]
    rfl
  | .arr (item :: items), hv, fuel, hfuel, rest, _ => by
    have hv : PlainItems (item :: items) := by simpa only [Plain] using hv
    obtain ⟨c, t, hitem, hc⟩ := exists_head_dump hv.1
    rw [dump, List.length_append, List.length_cons, List.length_singleton] at hfuel
    have hitems := scanItems_dumpItems (item :: items) hv (List.cons_ne_nil _ _) fuel
      (by omega) rest
    rw [dump, List.cons_append, List.cons_append, List.append_assoc, List.singleton_append]
    rw [dumpItems_cons, hitem, List.cons_append] at hitems ⊢
    rw [scan_bracket hc, hitems, Option.map_some]
  | .obj [], _, fuel, _, rest, _ => by
    rw [dump, dumpMembers, List.cons_append, List.nil_append, List.cons_append, scan,
      if_neg (by decide), if_pos rfl]
    rfl
  | .obj ((key, value) :: members), hv, fuel, hfuel, rest, _ => by
    have hv : PlainMembers ((key, value) :: members) := by simpa only [Plain] using hv
    rw [dump, List.length_append, List.length_cons, List.length_singleton] at hfuel
    have hmembers := scanMembers_dumpMembers ((key, value) :: members) hv
      (List.cons_ne_nil _ _) fuel (by omega) rest
    rw [dump, List.cons_append, List.cons_append, List.append_assoc, List.singleton_append]
    rw [dumpMembers_cons] at hmembers ⊢
    rw [scan_brace, hmembers, Option.map_some]

/-- Encoded items are read back. -/
theorem scanItems_dumpItems : ∀ (items : List Value) (_ : PlainItems items) (_ : items ≠ [])
    (fuel : Nat) (_ : (dumpItems items).length + 2 ≤ fuel) (rest : Text),
    scanItems fuel (dumpItems items ++ 93 :: rest) = some (items, rest)
  | [], _, hne, _, _, _ => absurd rfl hne
  | item :: items, hitems, _, fuel, hfuel, rest => by
    obtain ⟨n, rfl⟩ : ∃ n, fuel = n + 2 := ⟨fuel - 2, by omega⟩
    rw [dumpItems, List.length_append] at hfuel
    have hscan := scan_dump item hitems.1 n (by omega) _ (ends_dumpMoreItems items rest)
    have hmore := scanItems_dumpItems items hitems.2
    rw [dumpItems_cons]
    cases items with
    | nil => exact scanItems_last hscan
    | cons next more =>
      obtain ⟨c, t, hnext, hc⟩ := exists_head_dump hitems.2.1
      rw [dumpMoreItems, List.length_append, List.length_cons] at hfuel
      have hmore := hmore (List.cons_ne_nil _ _) (n + 1)
        (by rw [dumpItems, List.length_append]; omega) rest
      rw [dumpMoreItems_cons] at hscan ⊢
      rw [dumpItems_cons, hnext, List.cons_append] at hmore hscan ⊢
      rw [scanItems_more hscan hc, hmore, Option.map_some]

/-- Encoded members are read back. -/
theorem scanMembers_dumpMembers : ∀ (members : List (Text × Value)) (_ : PlainMembers members)
    (_ : members ≠ []) (fuel : Nat) (_ : (dumpMembers members).length + 2 ≤ fuel) (rest : Text),
    scanMembers fuel (dumpMembers members ++ 125 :: rest) = some (members, rest)
  | [], _, hne, _, _, _ => absurd rfl hne
  | (key, value) :: members, hmembers, _, fuel, hfuel, rest => by
    obtain ⟨n, rfl⟩ : ∃ n, fuel = n + 2 := ⟨fuel - 2, by omega⟩
    obtain ⟨hkey, hvalue, hmembers⟩ := hmembers
    rw [dumpMembers, List.length_append, List.length_append, List.length_cons] at hfuel
    obtain ⟨c, t, hhead, hc⟩ := exists_head_dump hvalue
    have hstring := scanString_dumpString hkey (by omega : (dumpString key).length ≤ n + 2)
      (58 :: (dump value ++ (dumpMoreMembers members ++ 125 :: rest)))
    have hscan := scan_dump value hvalue n (by omega) _ (ends_dumpMoreMembers members rest)
    have hmore := scanMembers_dumpMembers members hmembers
    rw [hhead, List.cons_append] at hstring hscan
    rw [dumpMembers_cons, hhead, List.cons_append, scanMembers_value hstring hc, hscan]
    cases members with
    | nil => rfl
    | cons next more =>
      obtain ⟨key', value'⟩ := next
      rw [dumpMoreMembers, List.length_append, List.length_append, List.length_cons,
        List.length_cons] at hfuel
      have hmore := hmore (List.cons_ne_nil _ _) (n + 1)
        (by rw [dumpMembers, List.length_append, List.length_append, List.length_cons]; omega) rest
      rw [dumpMembers_cons] at hmore
      rw [dumpMoreMembers_cons, dumpMembers_cons]
      simp only [show ∀ u, skipBlanks (44 :: 34 :: u) = 44 :: 34 :: u from fun _ => rfl,
        show ∀ u, skipBlanks (34 :: u) = 34 :: u from fun _ => rfl, hmore, Option.map_some]

end

/-- A value that was written is read back. -/
theorem loads_dump {v : Value} (h : Plain v) : loads (dump v) = some v := by
  obtain ⟨c, t, hv, hc⟩ := exists_head_dump h
  have hskip : skipBlanks (dump v) = dump v := by rw [hv, skipBlanks_of_starts hc]
  have hscan := scan_dump v h (dump v).length (Nat.le_refl _) [] Ends.nil
  rw [List.append_nil] at hscan
  rw [loads, hskip, hscan]
  rfl

/-! ## Sorted keys -/

theorem plainMembers_iff : ∀ {members : List (Text × Value)},
    PlainMembers members ↔ ∀ m ∈ members, m.1.all isScalar = true ∧ Plain m.2
  | [] => by simp [PlainMembers]
  | (key, value) :: members => by
    rw [PlainMembers, plainMembers_iff, List.forall_mem_cons, and_assoc]

mutual

/-- Sorting the keys keeps a value plain. -/
theorem plain_sortKeys : ∀ {v : Value}, Plain v → Plain (sortKeys v)
  | .null, h => by rw [sortKeys]; exact h
  | .bool _, h => by rw [sortKeys]; exact h
  | .int _, h => by rw [sortKeys]; exact h
  | .float _ _, h => by rw [sortKeys]; exact h
  | .str _, h => by rw [sortKeys]; exact h
  | .arr items, h => by
    rw [sortKeys, Plain]
    rw [Plain] at h
    exact plainItems_sortItems h
  | .obj members, h => by
    rw [Plain] at h
    have hsorted := plainMembers_iff.mp (plainMembers_sortMembers h)
    rw [sortKeys, Plain, plainMembers_iff]
    intro m hm
    exact hsorted m ((List.mem_insertionSort _).mp hm)

theorem plainItems_sortItems : ∀ {items : List Value}, PlainItems items →
    PlainItems (sortItems items)
  | [], h => h
  | _ :: _, h => ⟨plain_sortKeys h.1, plainItems_sortItems h.2⟩

theorem plainMembers_sortMembers : ∀ {members : List (Text × Value)}, PlainMembers members →
    PlainMembers (sortMembers members)
  | [], h => h
  | (_, _) :: _, h => ⟨h.1, plain_sortKeys h.2.1, plainMembers_sortMembers h.2.2⟩

end

/-- What `dumps` writes is read back as the value with sorted keys. -/
theorem loads_dumps {v : Value} (h : Plain v) : loads (dumps v) = some (sortKeys v) :=
  loads_dump (plain_sortKeys h)

/-! ## The encoding is printable ASCII -/

theorem hexDigit_bounds {n : Nat} (h : n < 16) : 32 ≤ hexDigit n ∧ hexDigit n < 127 := by
  rw [hexDigit]
  split <;> omega

theorem isPrintable_escapeUnit (u : Nat) : IsPrintable (escapeUnit u) := by
  have hdigit : ∀ n, 32 ≤ hexDigit (n % 16) ∧ hexDigit (n % 16) < 127 :=
    fun n => hexDigit_bounds (Nat.mod_lt n (by decide))
  exact .cons (by decide) (.cons (by decide) (.cons (hdigit _) (.cons (hdigit _)
    (.cons (hdigit _) (.cons (hdigit _) isPrintable_nil)))))

theorem isPrintable_escape (c : Nat) : IsPrintable (escape c) := by
  have hshort : ∀ e, (32 ≤ e ∧ e < 127) → IsPrintable [92, e] :=
    fun e he => .cons (by decide) (.cons he isPrintable_nil)
  rw [escape]
  split_ifs with _ _ _ _ _ _ _ hplain
  · exact hshort 34 (by decide)
  · exact hshort 92 (by decide)
  · exact hshort 110 (by decide)
  · exact hshort 114 (by decide)
  · exact hshort 116 (by decide)
  · exact hshort 102 (by decide)
  · exact hshort 98 (by decide)
  · exact .cons hplain isPrintable_nil
  · exact isPrintable_escapeUnit c
  · exact (isPrintable_escapeUnit _).append (isPrintable_escapeUnit _)

theorem isPrintable_dumpString (s : Text) : IsPrintable (dumpString s) := by
  refine (IsPrintable.cons (by decide) ?_).append (.cons (by decide) isPrintable_nil)
  intro c hc
  obtain ⟨d, -, hd⟩ := List.mem_flatMap.mp hc
  exact isPrintable_escape d c hd

theorem isPrintable_digits (n : Nat) : IsPrintable (digits n) := by
  intro c hc
  have h := isDigit_of_mem_digits hc
  simp only [isDigit, Bool.and_eq_true, decide_eq_true_eq] at h
  omega

mutual

/-- The encoding of a value is printable ASCII. -/
theorem isPrintable_dump : ∀ v : Value, IsPrintable (dump v)
  | .null => by
    rw [dump]
    decide
  | .bool true => by
    rw [dump]
    decide
  | .bool false => by
    rw [dump]
    decide
  | .int (.ofNat n) => by
    rw [dump, dumpInt]
    exact isPrintable_digits n
  | .int (.negSucc n) => by
    rw [dump, dumpInt]
    exact .cons (by decide) (isPrintable_digits _)
  | .float _ _ => by
    rw [dump]
    exact isPrintable_nil
  | .str s => by
    rw [dump]
    exact isPrintable_dumpString s
  | .arr items => by
    rw [dump]
    exact (IsPrintable.cons (by decide) (isPrintable_dumpItems items)).append
      (.cons (by decide) isPrintable_nil)
  | .obj members => by
    rw [dump]
    exact (IsPrintable.cons (by decide) (isPrintable_dumpMembers members)).append
      (.cons (by decide) isPrintable_nil)

theorem isPrintable_dumpItems : ∀ items : List Value, IsPrintable (dumpItems items)
  | [] => isPrintable_nil
  | item :: items => by
    rw [dumpItems]
    exact (isPrintable_dump item).append (isPrintable_dumpMoreItems items)

theorem isPrintable_dumpMoreItems : ∀ items : List Value, IsPrintable (dumpMoreItems items)
  | [] => isPrintable_nil
  | item :: items => by
    rw [dumpMoreItems]
    exact (IsPrintable.cons (by decide) (isPrintable_dump item)).append
      (isPrintable_dumpMoreItems items)

theorem isPrintable_dumpMembers : ∀ members : List (Text × Value),
    IsPrintable (dumpMembers members)
  | [] => isPrintable_nil
  | (key, value) :: members => by
    rw [dumpMembers]
    exact ((isPrintable_dumpString key).append
      (.cons (by decide) (isPrintable_dump value))).append (isPrintable_dumpMoreMembers members)

theorem isPrintable_dumpMoreMembers : ∀ members : List (Text × Value),
    IsPrintable (dumpMoreMembers members)
  | [] => isPrintable_nil
  | (key, value) :: members => by
    rw [dumpMoreMembers]
    exact ((IsPrintable.cons (by decide) (isPrintable_dumpString key)).append
      (.cons (by decide) (isPrintable_dump value))).append (isPrintable_dumpMoreMembers members)

end

/-! ## Sizes -/

/-- The bytes one code point takes inside an encoded string. -/
def escapeSize (c : Nat) : Nat :=
  if c = 34 ∨ c = 92 ∨ c = 10 ∨ c = 13 ∨ c = 9 ∨ c = 12 ∨ c = 8 then 2
  else if 32 ≤ c ∧ c < 127 then 1
  else if c < 0x10000 then 6
  else 12

/-- The bytes of an encoded string, with its quotes. -/
def stringSize (s : Text) : Nat := 2 + (s.map escapeSize).sum

theorem length_escape (c : Nat) : (escape c).length = escapeSize c := by
  rw [escape, escapeSize]
  split_ifs <;> first | rfl | omega

theorem length_dumpString (s : Text) : (dumpString s).length = stringSize s := by
  have hflat : (s.flatMap escape).length = (s.map escapeSize).sum := by
    rw [List.length_flatMap]
    congr 1
    exact List.map_congr_left fun c _ => length_escape c
  rw [dumpString, List.length_append, List.length_cons, hflat, stringSize, List.length_singleton]
  omega

/-- The bytes of the items of an array, with a comma after each but the last. -/
theorem length_dumpItems (items : List Value) :
    (dumpItems items).length = (items.map fun v => (dump v).length).sum + (items.length - 1) := by
  have hmore : ∀ items : List Value, (dumpMoreItems items).length =
      (items.map fun v => (dump v).length).sum + items.length := by
    intro items
    induction items with
    | nil => rfl
    | cons item items ih =>
      rw [dumpMoreItems, List.length_append, List.length_cons, ih, List.map_cons, List.sum_cons,
        List.length_cons]
      omega
  cases items with
  | nil => rfl
  | cons item items =>
    rw [dumpItems, List.length_append, hmore, List.map_cons, List.sum_cons, List.length_cons]
    omega

/-- The bytes of a member of an object, without commas. -/
def memberSize (member : Text × Value) : Nat := stringSize member.1 + 1 + (dump member.2).length

theorem memberSize_mk (key : Text) (value : Value) :
    memberSize (key, value) = stringSize key + 1 + (dump value).length := rfl

/-- The bytes of the members of an object, with a comma after each but the last. -/
theorem length_dumpMembers (members : List (Text × Value)) :
    (dumpMembers members).length = (members.map memberSize).sum + (members.length - 1) := by
  have hmore : ∀ members : List (Text × Value), (dumpMoreMembers members).length =
      (members.map memberSize).sum + members.length := by
    intro members
    induction members with
    | nil => rfl
    | cons member members ih =>
      obtain ⟨key, value⟩ := member
      rw [dumpMoreMembers, List.length_append, List.length_append, List.length_cons,
        List.length_cons, ih, length_dumpString, List.map_cons, List.sum_cons, List.length_cons,
        memberSize_mk]
      omega
  cases members with
  | nil => rfl
  | cons member members =>
    obtain ⟨key, value⟩ := member
    rw [dumpMembers, List.length_append, List.length_append, List.length_cons, hmore,
      length_dumpString, List.map_cons, List.sum_cons, List.length_cons, memberSize_mk]
    omega

/-! ## Bytes -/

/-- The encodings `json.loads` recognises. -/
inductive Encoding where
  | utf8 (mark : Bool)
  | utf16 (bigEndian mark : Bool)
  | utf32 (bigEndian mark : Bool)
  deriving DecidableEq, Repr

/-- The encoding that the zeros of the first characters tell. -/
def encodingOfZeros : List Nat → Encoding
  | a :: b :: c :: d :: _ =>
    if a = 0 then (if b = 0 then .utf32 true false else .utf16 true false)
    else if b = 0 then (if c = 0 ∧ d = 0 then .utf32 false false else .utf16 false false)
    else .utf8 false
  | [a, b] =>
    if a = 0 then .utf16 true false else if b = 0 then .utf16 false false else .utf8 false
  | _ => .utf8 false

/-- `detect_encoding`.  A decoder that is told of a mark skips it and takes its order. -/
def detectEncoding (raw : List Nat) : Encoding :=
  if [0x00, 0x00, 0xFE, 0xFF].isPrefixOf raw then .utf32 true true
  else if [0xFF, 0xFE, 0x00, 0x00].isPrefixOf raw then .utf32 false true
  else if [0xFE, 0xFF].isPrefixOf raw then .utf16 true true
  else if [0xFF, 0xFE].isPrefixOf raw then .utf16 false true
  else if [0xEF, 0xBB, 0xBF].isPrefixOf raw then .utf8 true
  else encodingOfZeros raw

/-- The text of the bytes in an encoding. -/
def decode (raw : List Nat) : Encoding → Option Text
  | .utf8 mark => decodeUtf8 (raw.drop (if mark then 3 else 0))
  | .utf16 bigEndian mark => decodeUtf16 bigEndian (raw.drop (if mark then 2 else 0))
  | .utf32 bigEndian mark => decodeUtf32 bigEndian (raw.drop (if mark then 4 else 0))

/-- `json.loads`, of bytes. -/
def loadsBytes (raw : List Nat) : Option Value := (decode raw (detectEncoding raw)).bind loads

theorem isPrefixOf_eq_false {a b : Nat} {s t : Text} (h : a ≠ b) :
    (a :: s).isPrefixOf (b :: t) = false := by
  rw [List.isPrefixOf_cons_cons, beq_eq_false_iff_ne.mpr h, Bool.false_and]

/-- Printable ASCII is taken for UTF-8. -/
theorem detectEncoding_printable {raw : Text} (h : IsPrintable raw) :
    detectEncoding raw = .utf8 false := by
  cases raw with
  | nil => rfl
  | cons a rest =>
    have ha := h a List.mem_cons_self
    have hprefix : ∀ b s, (b = 0 ∨ 0x80 ≤ b) → (b :: s).isPrefixOf (a :: rest) = false := by
      intro b s hb
      exact isPrefixOf_eq_false (by omega)
    rw [detectEncoding, hprefix _ _ (by decide), hprefix _ _ (by decide), hprefix _ _ (by decide),
      hprefix _ _ (by decide), hprefix _ _ (by decide)]
    simp only [Bool.false_eq_true, if_false]
    match rest with
    | [] => rfl
    | [b] =>
      have hb := h b (by simp)
      rw [encodingOfZeros, if_neg (by omega), if_neg (by omega)]
    | [_, _] => rfl
    | b :: _ :: _ :: _ =>
      have hb := h b (by simp)
      rw [encodingOfZeros, if_neg (by omega), if_neg (by omega)]

/-- What `dumps` writes is read back from its bytes as the value with sorted keys. -/
theorem loadsBytes_dumps {v : Value} (h : Plain v) : loadsBytes (dumps v) = some (sortKeys v) := by
  have hprintable : IsPrintable (dumps v) := isPrintable_dump _
  rw [loadsBytes, detectEncoding_printable hprintable, decode]
  simp only [Bool.false_eq_true, if_false, List.drop_zero,
    decodeUtf8_ascii hprintable.isAscii, Option.bind_some, loads_dumps h]

end JsonText
end Library
end OpenstackPlatform
