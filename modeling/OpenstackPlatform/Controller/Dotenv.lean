import Mathlib
import OpenstackPlatform.Library.Checks
import OpenstackPlatform.Library.Table
import OpenstackPlatform.Library.TextLines
import OpenstackPlatform.Validation

/-!
# The dotenv reader

`parse_dotenv` reads `KEY=value` lines.  A value between double quotes may hold escaped quotes and
escaped backslashes; the check for other escapes looks at one backslash at a time, and refuses an
escaped backslash unless a backslash or a quote comes next.

* `dotenvValue`, `dotenvLine`, `parseLines`, `parseDotenv`: the reader.
* `escapedLine`: an assignment with its value escaped between double quotes.
* `IsExpressible`, `dotenvLine_ok`, `parseLines_ok`: what is accepted.
* `parseDotenv_escapedLine`: when an escaped line is read back.
-/

namespace OpenstackPlatform
namespace Controller

open Library Validation

namespace Dotenv

/-! ## The reader -/

/-- What the reader raises. -/
inductive Error where
  | validation (message : String)
  | unicodeEncode
  deriving DecidableEq, Repr

/-- A document: bytes or text. -/
inductive Payload where
  | bytes (raw : List Nat)
  | str (text : Text)

/-- `raise ValidationError(message)` unless a condition holds. -/
def check (condition : Bool) (message : String) : Except Error Unit :=
  Checks.demand condition (.validation message)

/-- `env_key` -/
def envKey (name : Text) : Except Error String :=
  match Text.toString? name with
  | some key =>
    if isEnvKey key then .ok key
    else .error
      (.validation "environment key must start with A-Z and contain only A-Z, 0-9, or _")
  | none =>
    .error (.validation "environment key must start with A-Z and contain only A-Z, 0-9, or _")

/-- `text.encode("utf-8")` -/
def encode (text : Text) : Except Error (List Nat) :=
  match Text.encode? text with
  | some raw => .ok raw
  | none => .error .unicodeEncode

/-- `bounded_text` -/
def boundedText (field : String) (maximum : Nat) (value : Text) : Except Error Unit := do
  check (!value.contains 0) (field ++ " must be text without NUL bytes")
  let raw ← encode value
  check (raw.length ≤ maximum) (field ++ " exceeds its " ++ toString maximum ++ "-byte limit")

/-- `value[1:-1]` -/
def inner (value : Text) : Text := value.tail.dropLast

/-- The value of an assignment: between single quotes as it is, between double quotes with escapes
read, and otherwise without blanks and comments.  `39`, `34`, `92` and `35` are the quotes, the
backslash and the number sign. -/
def dotenvValue (number : Nat) (value : Text) : Except Error Text :=
  if value.head? = some 39 then do
    check (2 ≤ value.length && value.getLast? == some 39 && !(inner value).contains 39)
      ("dotenv line " ++ toString number ++ " has malformed single quotes")
    return inner value
  else if value.head? = some 34 then do
    check (2 ≤ value.length && value.getLast? == some 34)
      ("dotenv line " ++ toString number ++ " has malformed double quotes")
    check (!Text.hasBareMark 92 34 (inner value))
      ("dotenv line " ++ toString number ++ " has an unsupported escape")
    return Text.unescape 92 34 (inner value)
  else do
    check (!(value.any Text.isSpace || value.contains 35))
      ("dotenv line " ++ toString number ++ " must quote whitespace or #")
    return value

/-- The line assigns: it is neither blank nor a comment. -/
def isAssignment (line : Text) : Bool :=
  !(Text.strip line).isEmpty && (Text.strip line).head? != some 35

/-- `line.split("=", 1)`, its first part. -/
def nameOf (line : Text) : Text := line.takeWhile (· != 61)

/-- `line.split("=", 1)`, its second part. -/
def valueOf (line : Text) : Text := (line.dropWhile (· != 61)).drop 1

/-- `export` and a blank -/
def exportMark : Text := [101, 120, 112, 111, 114, 116, 32]

/-- A value with interpolation or command syntax: `$`, a backtick, `$(` or `${`. -/
def interpolates (value : Text) : Bool :=
  value.contains 36 || value.contains 96 ||
    value.tails.any fun rest => [36, 40].isPrefixOf rest || [36, 123].isPrefixOf rest

/-- One round of the loop over the lines. -/
def dotenvLine (number : Nat) (result : Table String Text) (line : Text) :
    Except Error (Table String Text) :=
  if isAssignment line then do
    check (!exportMark.isPrefixOf (Text.strip line) && line.contains 61)
      ("dotenv line " ++ toString number ++ " is malformed")
    check (nameOf line == Text.strip (nameOf line))
      ("dotenv line " ++ toString number ++ " has whitespace around its key")
    let key ← envKey (nameOf line)
    check (result.lookup key).isNone ("dotenv repeats key '" ++ key ++ "'")
    let value ← dotenvValue number (valueOf line)
    check (!interpolates value)
      ("dotenv line " ++ toString number ++ " contains interpolation or command syntax")
    boundedText ("environment value for " ++ key) 65536 value
    return result.insert key value
  else return result

/-- The loop over the lines. -/
def parseLines : Nat → Table String Text → List Text → Except Error (Table String Text)
  | _, result, [] => .ok result
  | number, result, line :: lines => do
    let result ← dotenvLine number result line
    parseLines (number + 1) result lines

/-- The bytes of a document. -/
def Payload.raw : Payload → Except Error (List Nat)
  | .bytes raw => .ok raw
  | .str text => encode text

/-- `parse_dotenv` -/
def parseDotenv (payload : Payload) (maximumBytes : Nat) : Except Error (Table String Text) := do
  let raw ← payload.raw
  check (raw.length ≤ maximumBytes)
    ("dotenv exceeds its " ++ toString maximumBytes ++ "-byte limit")
  match Text.decodeStrict? raw with
  | some text =>
    check (!text.contains 0) "dotenv must not contain NUL bytes"
    parseLines 1 ∅ (Text.splitLines text)
  | none => .error (.validation "dotenv must be UTF-8")

/-- `KEY="value"`, with a backslash before each backslash and each double quote of the value. -/
def escapedLine (key : String) (value : Text) : Text :=
  Text.ofString key ++ 61 :: 34 :: (Text.escape 92 34 value ++ [34])

/-! ## What is accepted -/

/-- The value has no dollar sign, no backtick, no NUL and no line break. -/
def IsExpressible (value : Text) : Prop :=
  ∀ c ∈ value, c ≠ 36 ∧ c ≠ 96 ∧ c ≠ 0 ∧ Text.isLineBreak c = false

instance : DecidablePred IsExpressible := fun value =>
  inferInstanceAs (Decidable (∀ c ∈ value, c ≠ 36 ∧ c ≠ 96 ∧ c ≠ 0 ∧ Text.isLineBreak c = false))

theorem check_ok {condition : Bool} {message : String} {u : Unit} :
    check condition message = .ok u ↔ condition = true :=
  Checks.demand_ok_iff

theorem envKey_ok {name : Text} {key : String} :
    envKey name = .ok key ↔ name = Text.ofString key ∧ isEnvKey key = true := by
  unfold envKey
  split
  next s hs =>
    have hname := Text.toString?_eq_some_iff.mp hs
    by_cases hkey : isEnvKey s = true
    · rw [if_pos hkey, Except.ok.injEq]
      constructor
      · rintro rfl
        exact ⟨hname, hkey⟩
      · rintro ⟨heq, -⟩
        exact Text.ofString_injective (hname.symm.trans heq)
    · rw [if_neg hkey]
      constructor
      · intro h
        cases h
      · rintro ⟨heq, hvalid⟩
        rw [Text.ofString_injective (hname.symm.trans heq)] at hkey
        exact absurd hvalid hkey
  next hnone =>
    constructor
    · intro h
      cases h
    · rintro ⟨rfl, -⟩
      rw [Text.toString?_ofString] at hnone
      cases hnone

theorem encode_ok {text : Text} {raw : List Nat} :
    encode text = .ok raw ↔ Text.encode? text = some raw := by
  unfold encode
  split
  next r hr =>
    rw [hr, Except.ok.injEq, Option.some.injEq]
  next hnone =>
    rw [hnone]
    constructor
    · intro h
      cases h
    · intro h
      cases h

/-- The value has a UTF-8 encoding of at most so many bytes. -/
def FitsIn (maximum : Nat) (value : Text) : Prop :=
  ∃ raw, Text.encode? value = some raw ∧ raw.length ≤ maximum

theorem boundedText_ok {field : String} {maximum : Nat} {value : Text} :
    boundedText field maximum value = .ok () ↔ 0 ∉ value ∧ FitsIn maximum value := by
  unfold boundedText
  rw [Checks.bind_ok_iff]
  constructor
  · rintro ⟨⟨⟩, hnul, h⟩
    obtain ⟨raw, hraw, h⟩ := Checks.bind_ok_iff.mp h
    refine ⟨?_, raw, encode_ok.mp hraw, of_decide_eq_true (check_ok.mp h)⟩
    simpa using check_ok.mp hnul
  · rintro ⟨hnul, raw, hraw, hlength⟩
    refine ⟨(), check_ok.mpr (by simpa using hnul), ?_⟩
    exact Checks.bind_ok_iff.mpr ⟨raw, encode_ok.mpr hraw, check_ok.mpr (decide_eq_true hlength)⟩

theorem mem_of_mem_inner {c : Nat} {value : Text} (h : c ∈ inner value) : c ∈ value :=
  List.mem_of_mem_tail (List.dropLast_subset _ h)

/-- A value holds what stands in the line, and the two marks of escapes. -/
theorem mem_of_dotenvValue {number : Nat} {raw value : Text}
    (h : dotenvValue number raw = .ok value) {c : Nat} (hc : c ∈ value) :
    c ∈ raw ∨ c = 34 ∨ c = 92 := by
  unfold dotenvValue at h
  split at h
  · obtain ⟨-, -, h⟩ := Checks.bind_ok_iff.mp h
    cases h
    exact .inl (mem_of_mem_inner hc)
  split at h
  · obtain ⟨-, -, h⟩ := Checks.bind_ok_iff.mp h
    obtain ⟨-, -, h⟩ := Checks.bind_ok_iff.mp h
    cases h
    rcases Text.mem_of_mem_replacePair hc with hc | rfl
    · rcases Text.mem_of_mem_replacePair hc with hc | rfl
      · exact .inl (mem_of_mem_inner hc)
      · exact .inr (.inl rfl)
    · exact .inr (.inr rfl)
  · obtain ⟨-, -, h⟩ := Checks.bind_ok_iff.mp h
    cases h
    exact .inl hc

theorem mem_of_mem_valueOf {c : Nat} {line : Text} (h : c ∈ valueOf line) : c ∈ line :=
  (List.dropWhile_suffix _).subset (List.mem_of_mem_drop h)

/-- A round of the loop skips the line, or assigns a new key. -/
theorem dotenvLine_ok {number : Nat} {result after : Table String Text} {line : Text}
    (h : dotenvLine number result line = .ok after)
    (hline : ∀ c ∈ line, Text.isLineBreak c = false) :
    (isAssignment line = false ∧ after = result) ∨
      (isAssignment line = true ∧ ∃ key value, nameOf line = Text.ofString key ∧
        result.lookup key = none ∧ after = result.insert key value ∧ IsExpressible value) := by
  unfold dotenvLine at h
  split at h
  next hassign =>
    obtain ⟨-, -, h⟩ := Checks.bind_ok_iff.mp h
    obtain ⟨-, -, h⟩ := Checks.bind_ok_iff.mp h
    obtain ⟨key, hkey, h⟩ := Checks.bind_ok_iff.mp h
    obtain ⟨⟨⟩, hnew, h⟩ := Checks.bind_ok_iff.mp h
    obtain ⟨value, hvalue, h⟩ := Checks.bind_ok_iff.mp h
    obtain ⟨⟨⟩, hplain, h⟩ := Checks.bind_ok_iff.mp h
    obtain ⟨⟨⟩, hbound, h⟩ := Checks.bind_ok_iff.mp h
    cases h
    refine .inr ⟨hassign, key, value, (envKey_ok.mp hkey).1,
      Option.isNone_iff_eq_none.mp (check_ok.mp hnew), rfl, ?_⟩
    have hplain := check_ok.mp hplain
    rw [interpolates, Bool.not_eq_true', Bool.or_eq_false_iff, Bool.or_eq_false_iff] at hplain
    obtain ⟨⟨hdollar, hbacktick⟩, -⟩ := hplain
    intro c hc
    refine ⟨?_, ?_, ?_, ?_⟩
    · rintro rfl
      simp [hc] at hdollar
    · rintro rfl
      simp [hc] at hbacktick
    · rintro rfl
      exact (boundedText_ok.mp hbound).1 hc
    · rcases mem_of_dotenvValue hvalue hc with hc | rfl | rfl
      · exact hline c (mem_of_mem_valueOf hc)
      · decide
      · decide
  next hskip =>
    exact .inl ⟨Bool.eq_false_iff.mpr hskip, (Except.ok.inj h).symm⟩

/-- The names that lines assign, in order. -/
def assignedNames (lines : List Text) : List Text := (lines.filter isAssignment).map nameOf

theorem assignedNames_skip {line : Text} {lines : List Text} (h : isAssignment line = false) :
    assignedNames (line :: lines) = assignedNames lines := by
  rw [assignedNames, List.filter_cons_of_neg (Bool.eq_false_iff.mp h), assignedNames]

theorem assignedNames_cons {line : Text} {lines : List Text} (h : isAssignment line = true) :
    assignedNames (line :: lines) = nameOf line :: assignedNames lines := by
  rw [assignedNames, List.filter_cons_of_pos h, List.map_cons, assignedNames]

/-- What the loop has done to a table when it returns. -/
structure Assigns (result after : Table String Text) (names : List Text) : Prop where
  nodup : names.Nodup
  fresh : ∀ name ∈ names, ∃ key, name = Text.ofString key ∧ result.lookup key = none
  keys : ∀ key, (after.lookup key).isSome = true ↔
    (result.lookup key).isSome = true ∨ Text.ofString key ∈ names
  values : (∀ key value, result.lookup key = some value → IsExpressible value) →
    ∀ key value, after.lookup key = some value → IsExpressible value

theorem Assigns.refl (result : Table String Text) : Assigns result result [] where
  nodup := List.nodup_nil
  fresh name h := absurd h List.not_mem_nil
  keys key := by simp
  values h := h

/-- An assignment before the others. -/
theorem Assigns.cons {result after : Table String Text} {names : List Text} {key : String}
    {value : Text} (hnew : result.lookup key = none) (hvalue : IsExpressible value)
    (h : Assigns (result.insert key value) after names) :
    Assigns result after (Text.ofString key :: names) where
  nodup := by
    refine List.nodup_cons.mpr ⟨fun hmem => ?_, h.nodup⟩
    obtain ⟨key', heq, hnone⟩ := h.fresh _ hmem
    rw [← Text.ofString_injective heq, AList.lookup_insert] at hnone
    cases hnone
  fresh := by
    intro name hname
    rcases List.mem_cons.mp hname with rfl | hname
    · exact ⟨key, rfl, hnew⟩
    · obtain ⟨key', rfl, hnone⟩ := h.fresh name hname
      refine ⟨key', rfl, ?_⟩
      rw [Table.lookup_insert_ite] at hnone
      split at hnone
      · cases hnone
      · exact hnone
  keys := by
    intro k
    rw [h.keys, Table.lookup_insert_ite, List.mem_cons, Text.ofString_injective.eq_iff]
    by_cases hk : k = key
    · rw [if_pos hk]
      simp [hk]
    · rw [if_neg hk]
      tauto
  values := by
    intro hold
    refine h.values fun k v hk => ?_
    rw [Table.lookup_insert_ite] at hk
    split at hk
    · cases hk
      exact hvalue
    · exact hold k v hk

/-- The loop, by induction on the lines. -/
theorem parseLines_ok {lines : List Text} {number : Nat} {result after : Table String Text}
    (h : parseLines number result lines = .ok after)
    (hlines : ∀ line ∈ lines, ∀ c ∈ line, Text.isLineBreak c = false) :
    Assigns result after (assignedNames lines) := by
  induction lines generalizing number result with
  | nil =>
    cases h
    exact .refl _
  | cons line lines ih =>
    obtain ⟨middle, hmiddle, h⟩ := Checks.bind_ok_iff.mp h
    have hrest := ih h fun l hl => hlines l (List.mem_cons_of_mem _ hl)
    rcases dotenvLine_ok hmiddle (hlines line List.mem_cons_self) with
      ⟨hskip, rfl⟩ | ⟨hassign, key, value, hname, hnew, rfl, hvalue⟩
    · rw [assignedNames_skip hskip]
      exact hrest
    · rw [assignedNames_cons hassign, hname]
      exact .cons hnew hvalue hrest

/-- The text of a document. -/
def Payload.text? (payload : Payload) : Option Text :=
  match payload.raw with
  | .ok raw => Text.decodeStrict? raw
  | .error _ => none

theorem parseDotenv_ok {payload : Payload} {maximumBytes : Nat} {result : Table String Text} :
    parseDotenv payload maximumBytes = .ok result ↔
      ∃ raw text, payload.raw = .ok raw ∧ raw.length ≤ maximumBytes ∧
        Text.decodeStrict? raw = some text ∧ 0 ∉ text ∧
          parseLines 1 ∅ (Text.splitLines text) = .ok result := by
  unfold parseDotenv
  rw [Checks.bind_ok_iff]
  constructor
  · rintro ⟨raw, hraw, h⟩
    obtain ⟨⟨⟩, hlength, h⟩ := Checks.bind_ok_iff.mp h
    cases htext : Text.decodeStrict? raw with
    | none =>
      rw [htext] at h
      cases h
    | some text =>
      rw [htext] at h
      obtain ⟨⟨⟩, hnul, h⟩ := Checks.bind_ok_iff.mp h
      refine ⟨raw, text, hraw, of_decide_eq_true (check_ok.mp hlength), htext, ?_, h⟩
      simpa using check_ok.mp hnul
  · rintro ⟨raw, text, hraw, hlength, htext, hnul, h⟩
    refine ⟨raw, hraw, Checks.bind_ok_iff.mpr
      ⟨(), check_ok.mpr (decide_eq_true hlength), ?_⟩⟩
    rw [htext]
    exact Checks.bind_ok_iff.mpr ⟨(), check_ok.mpr (by simpa using hnul), h⟩

/-! ## Escaped lines -/

/-- What the points of a key are not. -/
structure IsKeyPoint (n : Nat) : Prop where
  notSpace : Text.isSpace n = false
  notBreak : Text.isLineBreak n = false
  notNul : n ≠ 0
  notMark : n ≠ 61 ∧ n ≠ 35 ∧ n ≠ 101

theorem isKeyPoint_of_bounds {n : Nat} (h : 48 ≤ n ∧ n ≤ 57 ∨ 65 ≤ n ∧ n ≤ 90 ∨ n = 95) :
    IsKeyPoint n := by
  refine ⟨?_, ?_, by omega, by omega⟩
  · simp only [Text.isSpace, Bool.or_eq_false_iff, Bool.and_eq_false_iff, decide_eq_false_iff_not,
      beq_eq_false_iff_ne]
    omega
  · simp only [Text.isLineBreak, Bool.or_eq_false_iff, Bool.and_eq_false_iff,
      decide_eq_false_iff_not, beq_eq_false_iff_ne]
    omega

theorem isKeyPoint {key : String} (h : isEnvKey key = true) :
    ∀ n ∈ Text.ofString key, IsKeyPoint n := by
  intro n hn
  obtain ⟨c, hc, rfl⟩ := List.mem_map.mp hn
  refine isKeyPoint_of_bounds ?_
  have hchar := (isEnvKey_chars h).2 c hc
  simp only [Char.isUpper, Char.isDigit, Bool.or_eq_true, Bool.and_eq_true, decide_eq_true_eq,
    beq_iff_eq, UInt32.le_iff_toNat_le] at hchar
  rcases hchar with (⟨hlow, hhigh⟩ | ⟨hlow, hhigh⟩) | rfl
  · exact .inr (.inl ⟨hlow, hhigh⟩)
  · exact .inl ⟨hlow, hhigh⟩
  · exact .inr (.inr rfl)

section EscapedLine

variable {key : String} {value : Text}

theorem nameOf_escapedLine (hkey : isEnvKey key = true) :
    nameOf (escapedLine key value) = Text.ofString key := by
  rw [nameOf, escapedLine, List.takeWhile_append_of_pos]
  · rw [List.takeWhile_cons_of_neg (by decide), List.append_nil]
  · intro n hn
    simpa using (isKeyPoint hkey n hn).notMark.1

theorem valueOf_escapedLine (hkey : isEnvKey key = true) :
    valueOf (escapedLine key value) = 34 :: (Text.escape 92 34 value ++ [34]) := by
  rw [valueOf, escapedLine, List.dropWhile_append_of_pos]
  · rw [List.dropWhile_cons_of_neg (by decide)]
    rfl
  · intro n hn
    simpa using (isKeyPoint hkey n hn).notMark.1

theorem inner_quoted (text : Text) : inner (34 :: (text ++ [34])) = text := by
  rw [inner, List.tail_cons, List.dropLast_concat]

/-- The check for other escapes decides on an escaped value. -/
theorem dotenvValue_escaped {number : Nat} {after : Text} :
    dotenvValue number (34 :: (Text.escape 92 34 value ++ [34])) = .ok after ↔
      Text.hasBareMark 92 34 value = false ∧ after = value := by
  unfold dotenvValue
  rw [List.head?_cons, if_neg (by decide), if_pos rfl, inner_quoted,
    Text.unescape_escape (by decide), Text.hasBareMark_escape (by decide), Checks.bind_ok_iff]
  have hquoted : (decide (2 ≤ (34 :: (Text.escape 92 34 value ++ [34])).length) &&
      (34 :: (Text.escape 92 34 value ++ [34])).getLast? == some 34) = true := by
    rw [← List.cons_append, List.getLast?_concat, List.length_append, List.length_cons]
    simp
  constructor
  · rintro ⟨⟨⟩, -, h⟩
    obtain ⟨⟨⟩, hbare, h⟩ := Checks.bind_ok_iff.mp h
    exact ⟨by simpa using check_ok.mp hbare, (Except.ok.inj h).symm⟩
  · rintro ⟨hbare, rfl⟩
    refine ⟨(), check_ok.mpr hquoted, Checks.bind_ok_iff.mpr ⟨(), check_ok.mpr ?_, rfl⟩⟩
    rw [hbare]
    rfl

theorem interpolates_of_isExpressible (h : IsExpressible value) : interpolates value = false := by
  have hdollar : 36 ∉ value := fun hmem => (h _ hmem).1 rfl
  have hbacktick : 96 ∉ value := fun hmem => (h _ hmem).2.1 rfl
  rw [interpolates, Bool.or_eq_false_iff, Bool.or_eq_false_iff, List.any_eq_false]
  refine ⟨⟨by simpa using hdollar, by simpa using hbacktick⟩, fun rest hrest => ?_⟩
  have hsub := ((List.mem_tails _ _).mp hrest).subset
  cases rest with
  | nil => decide
  | cons c rest =>
    have hc : (36 == c) = false := by
      rw [beq_eq_false_iff_ne]
      rintro rfl
      exact hdollar (hsub List.mem_cons_self)
    simp [List.isPrefixOf, hc]

theorem escapedLine_cons (hkey : isEnvKey key = true) :
    ∃ c rest, escapedLine key value = c :: rest ∧ IsKeyPoint c := by
  cases hpoints : Text.ofString key with
  | nil =>
    rw [Text.ofString, List.map_eq_nil_iff] at hpoints
    exact absurd hpoints (isEnvKey_chars hkey).1
  | cons c rest =>
    refine ⟨c, rest ++ 61 :: 34 :: (Text.escape 92 34 value ++ [34]), ?_, ?_⟩
    · rw [escapedLine, hpoints, List.cons_append]
    · exact isKeyPoint hkey c (hpoints ▸ List.mem_cons_self)

/-- A round of the loop on an escaped line. -/
theorem dotenvLine_escaped (hkey : isEnvKey key = true) (hvalue : IsExpressible value)
    {number : Nat} {after : Table String Text} :
    dotenvLine number ∅ (escapedLine key value) = .ok after ↔
      Text.hasBareMark 92 34 value = false ∧ FitsIn 65536 value ∧
        after = (∅ : Table String Text).insert key value := by
  obtain ⟨c, rest, hcons, hc⟩ := @escapedLine_cons key value hkey
  obtain ⟨stripped, hstrip⟩ := Text.exists_strip_cons hc.notSpace rest
  have hassign : isAssignment (escapedLine key value) = true := by
    rw [isAssignment, hcons, hstrip]
    simpa using hc.notMark.2.1
  have hexport : exportMark.isPrefixOf (Text.strip (escapedLine key value)) = false := by
    rw [hcons, hstrip, exportMark, List.isPrefixOf_cons_cons,
      beq_eq_false_iff_ne.mpr (Ne.symm hc.notMark.2.2), Bool.false_and]
  have hequals : (escapedLine key value).contains 61 = true := by
    rw [List.contains_iff_mem, escapedLine]
    simp
  have hname : Text.strip (Text.ofString key) = Text.ofString key :=
    Text.strip_of_plain fun n hn => (isKeyPoint hkey n hn).notSpace
  have hnul : 0 ∉ value := fun hmem => (hvalue _ hmem).2.2.1 rfl
  unfold dotenvLine
  rw [if_pos hassign, hexport, hequals, nameOf_escapedLine hkey, hname, valueOf_escapedLine hkey]
  constructor
  · intro h
    obtain ⟨⟨⟩, -, h⟩ := Checks.bind_ok_iff.mp h
    obtain ⟨⟨⟩, -, h⟩ := Checks.bind_ok_iff.mp h
    obtain ⟨key', hkey', h⟩ := Checks.bind_ok_iff.mp h
    obtain ⟨⟨⟩, -, h⟩ := Checks.bind_ok_iff.mp h
    obtain ⟨value', hvalue', h⟩ := Checks.bind_ok_iff.mp h
    obtain ⟨⟨⟩, -, h⟩ := Checks.bind_ok_iff.mp h
    obtain ⟨⟨⟩, hbound, h⟩ := Checks.bind_ok_iff.mp h
    have hafter := Except.ok.inj h
    obtain ⟨hbare, rfl⟩ := dotenvValue_escaped.mp hvalue'
    obtain rfl := Text.ofString_injective (envKey_ok.mp hkey').1
    exact ⟨hbare, (boundedText_ok.mp hbound).2, hafter.symm⟩
  · rintro ⟨hbare, hfits, rfl⟩
    refine Checks.bind_ok_iff.mpr ⟨(), check_ok.mpr rfl, ?_⟩
    refine Checks.bind_ok_iff.mpr ⟨(), check_ok.mpr (beq_self_eq_true _), ?_⟩
    refine Checks.bind_ok_iff.mpr ⟨key, envKey_ok.mpr ⟨rfl, hkey⟩, ?_⟩
    refine Checks.bind_ok_iff.mpr ⟨(), check_ok.mpr rfl, ?_⟩
    refine Checks.bind_ok_iff.mpr ⟨value, dotenvValue_escaped.mpr ⟨hbare, rfl⟩, ?_⟩
    refine Checks.bind_ok_iff.mpr ⟨(), check_ok.mpr ?_, ?_⟩
    · rw [interpolates_of_isExpressible hvalue]
      rfl
    · exact Checks.bind_ok_iff.mpr ⟨(), boundedText_ok.mpr ⟨hnul, hfits⟩, rfl⟩

theorem plain_escapedLine (hkey : isEnvKey key = true) (hvalue : IsExpressible value) :
    ∀ c ∈ escapedLine key value, c ≠ 0 ∧ Text.isLineBreak c = false := by
  intro c hc
  simp only [escapedLine, List.mem_append, List.mem_cons, List.not_mem_nil, or_false] at hc
  rcases hc with hc | rfl | rfl | hc | rfl
  · exact ⟨(isKeyPoint hkey c hc).notNul, (isKeyPoint hkey c hc).notBreak⟩
  · exact ⟨by decide, by decide⟩
  · exact ⟨by decide, by decide⟩
  · rcases Text.mem_of_mem_escape hc with hc | rfl
    · exact (hvalue c hc).2.2
    · exact ⟨by decide, by decide⟩
  · exact ⟨by decide, by decide⟩

end EscapedLine

/-- The document is the line, as text or as its bytes. -/
def IsLine (payload : Payload) (line : Text) : Prop :=
  payload = .str line ∨ ∃ raw, Text.encode? line = some raw ∧ payload = .bytes raw

theorem IsLine.raw {payload : Payload} {line : Text} (h : IsLine payload line) {raw : List Nat} :
    payload.raw = .ok raw ↔ Text.encode? line = some raw := by
  rcases h with rfl | ⟨bytes, hbytes, rfl⟩
  · exact encode_ok
  · rw [hbytes, Payload.raw, Except.ok.injEq, Option.some.injEq]

/-- The dotenv reader: an escaped line is read back exactly when it and its value are not too long
and every backslash of the value stands before another one or before a double quote; and whatever
is accepted assigns no name twice, and no value that could not be escaped. -/
theorem parseDotenv_escapedLine (payload : Payload) (maximumBytes : Nat) :
    (∀ key value, isEnvKey key = true → IsExpressible value →
      IsLine payload (escapedLine key value) →
        ((∃ result, parseDotenv payload maximumBytes = .ok result ∧
            ∀ k, result.lookup k = if k = key then some value else none) ↔
          FitsIn maximumBytes (escapedLine key value) ∧ FitsIn 65536 value ∧
            ∀ i, value[i]? = some 92 → value[i + 1]? = some 92 ∨ value[i + 1]? = some 34)) ∧
    ∀ result, parseDotenv payload maximumBytes = .ok result →
      ∃ text, payload.text? = some text ∧ (assignedNames (Text.splitLines text)).Nodup ∧
        (∀ key, (result.lookup key).isSome = true ↔
          Text.ofString key ∈ assignedNames (Text.splitLines text)) ∧
        ∀ key value, result.lookup key = some value → IsExpressible value := by
  refine ⟨?_, ?_⟩
  · intro key value hkey hvalue hline
    obtain ⟨c, rest, hcons, -⟩ := @escapedLine_cons key value hkey
    have hplain := plain_escapedLine hkey hvalue
    have hlines : Text.splitLines (escapedLine key value) = [escapedLine key value] := by
      rw [hcons] at hplain ⊢
      exact Text.splitLines_of_plain fun d hd => (hplain d hd).2
    have hnul : 0 ∉ escapedLine key value := fun hmem => (hplain 0 hmem).1 rfl
    rw [← Text.hasBareMark_eq_false_iff]
    constructor
    · rintro ⟨result, h, -⟩
      obtain ⟨raw, text, hraw, hlength, htext, -, hparse⟩ := parseDotenv_ok.mp h
      have hencoded := hline.raw.mp hraw
      rw [Text.decodeStrict?_of_encode? hencoded] at htext
      cases htext
      rw [hlines] at hparse
      obtain ⟨after, hafter, -⟩ := Checks.bind_ok_iff.mp hparse
      obtain ⟨hbare, hfits, -⟩ := (dotenvLine_escaped hkey hvalue).mp hafter
      exact ⟨⟨raw, hencoded, hlength⟩, hfits, hbare⟩
    · rintro ⟨⟨raw, hencoded, hlength⟩, hfits, hbare⟩
      refine ⟨(∅ : Table String Text).insert key value, ?_, fun k => ?_⟩
      · refine parseDotenv_ok.mpr ⟨raw, escapedLine key value, hline.raw.mpr hencoded, hlength,
          Text.decodeStrict?_of_encode? hencoded, hnul, ?_⟩
        rw [hlines]
        exact Checks.bind_ok_iff.mpr
          ⟨_, (dotenvLine_escaped hkey hvalue).mpr ⟨hbare, hfits, rfl⟩, rfl⟩
      · rw [Table.lookup_insert_ite]
        rfl
  · intro result h
    obtain ⟨raw, text, hraw, -, htext, -, hparse⟩ := parseDotenv_ok.mp h
    have hassigns := parseLines_ok hparse Text.isLineBreak_of_mem_splitLines
    refine ⟨text, ?_, hassigns.nodup, fun key => ?_, hassigns.values fun key value hnone => ?_⟩
    · rw [Payload.text?, hraw]
      exact htext
    · rw [hassigns.keys]
      simp
    · cases hnone

/-- A quote that is escaped, with a backslash before it. -/
theorem parseDotenv_escapedLine_quote :
    (∃ result, parseDotenv (.str (escapedLine "KEY" [97, 92, 34])) 262144 = .ok result ∧
      ∀ k, result.lookup k = if k = "KEY" then some [97, 92, 34] else none) ∧
    ∃ text, (Payload.str (escapedLine "KEY" [97, 92, 34])).text? = some text ∧
      (assignedNames (Text.splitLines text)).Nodup := by
  have hread := ((parseDotenv_escapedLine (.str (escapedLine "KEY" [97, 92, 34])) 262144).1 "KEY"
    [97, 92, 34] (by decide) (by decide) (.inl rfl)).mpr
      ⟨⟨_, rfl, by decide⟩, ⟨_, rfl, by decide⟩,
        (@Text.hasBareMark_eq_false_iff 92 34 _).mp (by decide)⟩
  refine ⟨hread, ?_⟩
  obtain ⟨result, hresult, -⟩ := hread
  obtain ⟨text, htext, hnodup, -⟩ := (parseDotenv_escapedLine _ _).2 _ hresult
  exact ⟨text, htext, hnodup⟩

/-- A backslash before a letter is escaped, and refused. -/
theorem parseDotenv_backslash :
    isEnvKey "KEY" = true ∧ IsExpressible [97, 92, 98] ∧
      escapedLine "KEY" [97, 92, 98] = [75, 69, 89, 61, 34, 97, 92, 92, 98, 34] ∧
      parseDotenv (.str (escapedLine "KEY" [97, 92, 98])) 262144 =
        .error (.validation "dotenv line 1 has an unsupported escape") := by
  decide +kernel

end Dotenv

end Controller
end OpenstackPlatform
