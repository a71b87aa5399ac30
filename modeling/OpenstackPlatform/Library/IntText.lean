import OpenstackPlatform.Library.JsonText
import OpenstackPlatform.Library.TextLines

/-!
# Integers in texts

`int` of a text: blanks around it are dropped, a sign may stand before the digits, and single
underscores between them.  The digits may be of any script, so what a code point counts as is a
parameter that agrees with the ASCII digits.

* `Numerals`: the decimal digits of all scripts.
* `digitValues`, `parseInt`: the reader.
* `parseInt_dumpInt`: `str` of an integer is read back, unless it has too many digits.
-/

namespace OpenstackPlatform
namespace Library
namespace Text

/-- What the code points count as; the ASCII digits count as what they are. -/
structure Numerals where
  value : Nat → Option Nat
  ascii : ∀ c, JsonText.isDigit c = true → value c = some (c - 48)

/-- The digits of a number; an underscore may stand between two digits. -/
def digitValues (numerals : Numerals) : Text → Option (List Nat)
  | [] => none
  | [c] => (numerals.value c).map fun v => [v]
  | c :: d :: rest =>
    (numerals.value c).bind fun v =>
      if d = 95 then (digitValues numerals rest).map (v :: ·)
      else (digitValues numerals (d :: rest)).map (v :: ·)

/-- A number without a sign. -/
def parseDigits (numerals : Numerals) (t : Text) : Option Nat :=
  (digitValues numerals t).bind fun vs =>
    if vs.length ≤ JsonText.maxDigits then some (vs.foldl (fun n v => 10 * n + v) 0) else none

/-- A number with or without a sign. -/
def parseSigned (numerals : Numerals) : Text → Option Int
  | 45 :: t => (parseDigits numerals t).map fun n => -(n : Int)
  | 43 :: t => (parseDigits numerals t).map fun n => (n : Int)
  | t => (parseDigits numerals t).map fun n => (n : Int)

/-- `int(text)` -/
def parseInt (numerals : Numerals) (t : Text) : Option Int := parseSigned numerals (strip t)

section RoundTrip

variable {numerals : Numerals}

theorem digitValues_of_isDigit : ∀ {t : Text}, t ≠ [] → (∀ c ∈ t, JsonText.isDigit c = true) →
    digitValues numerals t = some (t.map (· - 48))
  | [], h, _ => absurd rfl h
  | [c], _, h => by
    rw [digitValues, numerals.ascii c (h c List.mem_cons_self)]
    rfl
  | c :: d :: rest, _, h => by
    have hd : d ≠ 95 := by
      rintro rfl
      cases h 95 (List.mem_cons_of_mem _ List.mem_cons_self)
    rw [digitValues, numerals.ascii c (h c List.mem_cons_self), Option.bind_some, if_neg hd,
      digitValues_of_isDigit (List.cons_ne_nil d rest) fun e he => h e (List.mem_cons_of_mem _ he)]
    rfl

theorem parseDigits_digits {n : Nat} (h : (JsonText.digits n).length ≤ JsonText.maxDigits) :
    parseDigits numerals (JsonText.digits n) = some n := by
  obtain ⟨c, t, hcons, -⟩ := JsonText.exists_head_digits n
  have hne : JsonText.digits n ≠ [] := by simp [hcons]
  rw [parseDigits, digitValues_of_isDigit hne fun c hc => JsonText.isDigit_of_mem_digits hc,
    Option.bind_some, List.length_map, if_pos h, List.foldl_map]
  exact congrArg some (JsonText.decimal_digits n)

theorem isSpace_of_isDigit {c : Nat} (h : JsonText.isDigit c = true) : isSpace c = false := by
  simp only [JsonText.isDigit, Bool.and_eq_true, decide_eq_true_eq] at h
  simp only [isSpace, Bool.or_eq_false_iff, Bool.and_eq_false_iff, decide_eq_false_iff_not,
    beq_eq_false_iff_ne]
  omega

/-- `int(str(n))` -/
theorem parseInt_dumpInt {n : Int} (h : (JsonText.digits n.natAbs).length ≤ JsonText.maxDigits) :
    parseInt numerals (JsonText.dumpInt n) = some n := by
  cases n with
  | ofNat n =>
    have hplain : ∀ c ∈ JsonText.digits n, isSpace c = false :=
      fun c hc => isSpace_of_isDigit (JsonText.isDigit_of_mem_digits hc)
    obtain ⟨c, t, hcons, hc⟩ := JsonText.exists_head_digits n
    have hread := @parseDigits_digits numerals n h
    rw [JsonText.dumpInt, parseInt, strip_of_plain hplain]
    rw [hcons] at hread ⊢
    rw [parseSigned, hread]
    · rfl
    · rintro _ heq
      rw [(List.cons.inj heq).1] at hc
      cases hc
    · rintro _ heq
      rw [(List.cons.inj heq).1] at hc
      cases hc
  | negSucc n =>
    have hplain : ∀ c ∈ 45 :: JsonText.digits (n + 1), isSpace c = false := by
      intro c hc
      obtain rfl | hc := List.mem_cons.mp hc
      · decide
      · exact isSpace_of_isDigit (JsonText.isDigit_of_mem_digits hc)
    have hread := @parseDigits_digits numerals (n + 1) h
    rw [JsonText.dumpInt, parseInt, strip_of_plain hplain, parseSigned, hread]
    rfl

end RoundTrip

end Text
end Library
end OpenstackPlatform
