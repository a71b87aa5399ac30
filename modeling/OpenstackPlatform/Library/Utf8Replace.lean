import OpenstackPlatform.Library.Text

/-!
# UTF-8 with replacement

Decoding that replaces what is not UTF-8: every longest start of a character that is not completed,
and every byte that starts none, becomes one `U+FFFD`.  The decoder reads a byte at a time and keeps
the character that it has begun.

* `Begun`, `step`, `feed`: the decoder.
* `decodeReplace`: `bytes.decode("utf-8", errors="replace")`.
* `finish_append`, `decodeReplace_newline`: decoding in parts, and after a line feed.
* `continues`, `decodeReplace_append`, `length_decodeReplace_append`: two parts decode on their own
  unless the second continues a character of the first; then they decode to more.
-/

namespace OpenstackPlatform.Library

namespace Utf8Replace

/-- `U+FFFD` -/
def replacement : Nat := 0xFFFD

/-- A character that has begun: its value so far, how many bytes follow the next one, and where the
next one must lie. -/
structure Begun where
  value : Nat
  lacks : Nat
  low : Nat
  high : Nat
  isTail : 0x80 ≤ low ∧ high ≤ 0xBF
  deriving DecidableEq

/-- The byte may be the next one of the character. -/
def Begun.accepts (begun : Begun) (b : UInt8) : Bool :=
  begun.low ≤ b.toNat && b.toNat ≤ begun.high

/-- A byte between characters. -/
def first (b : UInt8) : Text × Option Begun :=
  let n := b.toNat
  if n < 0x80 then ([n], none)
  else if 0xC2 ≤ n ∧ n ≤ 0xDF then ([], some ⟨n - 0xC0, 0, 0x80, 0xBF, by decide⟩)
  else if n = 0xE0 then ([], some ⟨0x0, 1, 0xA0, 0xBF, by decide⟩)
  else if n = 0xED then ([], some ⟨0xD, 1, 0x80, 0x9F, by decide⟩)
  else if 0xE1 ≤ n ∧ n ≤ 0xEF then ([], some ⟨n - 0xE0, 1, 0x80, 0xBF, by decide⟩)
  else if n = 0xF0 then ([], some ⟨0x0, 2, 0x90, 0xBF, by decide⟩)
  else if 0xF1 ≤ n ∧ n ≤ 0xF3 then ([], some ⟨n - 0xF0, 2, 0x80, 0xBF, by decide⟩)
  else if n = 0xF4 then ([], some ⟨0x4, 2, 0x80, 0x8F, by decide⟩)
  else ([replacement], none)

/-- One byte: what the decoder gives, and the character that it has begun. -/
def step : Option Begun → UInt8 → Text × Option Begun
  | none, b => first b
  | some begun, b =>
    if begun.accepts b then
      let value := begun.value * 0x40 + (b.toNat - 0x80)
      match begun.lacks with
      | 0 => ([value], none)
      | lacks + 1 => ([], some ⟨value, lacks, 0x80, 0xBF, by decide⟩)
    else (replacement :: (first b).1, (first b).2)

/-- Bytes one after another. -/
def feed (state : Option Begun) : List UInt8 → Text × Option Begun
  | [] => ([], state)
  | b :: rest =>
    ((step state b).1 ++ (feed (step state b).2 rest).1, (feed (step state b).2 rest).2)

/-- What the end of the bytes gives: a character that has begun is replaced. -/
def flush : Option Begun → Text
  | none => []
  | some _ => [replacement]

/-- The bytes up to the end. -/
def finish (state : Option Begun) (bytes : List UInt8) : Text :=
  (feed state bytes).1 ++ flush (feed state bytes).2

/-- `bytes.decode("utf-8", errors="replace")` -/
def decodeReplace (bytes : List UInt8) : Text := finish none bytes

/-- A euro sign, a byte that starts nothing and the start of a sign. -/
example : decodeReplace [0xE2, 0x82, 0xAC, 0x80, 0xE2, 0x82] = [0x20AC, 0xFFFD, 0xFFFD] := by
  decide

/-! ## Parts -/

theorem feed_append (state : Option Begun) (x y : List UInt8) :
    feed state (x ++ y) =
      ((feed state x).1 ++ (feed (feed state x).2 y).1, (feed (feed state x).2 y).2) := by
  induction x generalizing state with
  | nil => rfl
  | cons b x ih =>
    rw [List.cons_append, feed, ih]
    simp only [feed, List.append_assoc]

theorem finish_append (state : Option Begun) (x y : List UInt8) :
    finish state (x ++ y) = (feed state x).1 ++ finish (feed state x).2 y := by
  rw [finish, finish, feed_append, List.append_assoc]

theorem finish_cons (state : Option Begun) (b : UInt8) (rest : List UInt8) :
    finish state (b :: rest) = (step state b).1 ++ finish (step state b).2 rest := by
  rw [finish, finish, feed, List.append_assoc]

/-- A line feed ends the character that has begun. -/
theorem step_newline (state : Option Begun) : step state 10 = (flush state ++ [10], none) := by
  cases state with
  | none => rfl
  | some begun =>
    have hlow := begun.isTail.1
    have hten : (10 : UInt8).toNat = 10 := rfl
    have haccepts : ¬ begun.accepts 10 = true := by
      rw [Begun.accepts, Bool.and_eq_true, decide_eq_true_eq]
      omega
    rw [step, if_neg haccepts]
    rfl

/-- What follows a line feed decodes on its own. -/
theorem decodeReplace_newline (x y : List UInt8) :
    decodeReplace (x ++ 10 :: y) = decodeReplace x ++ 10 :: decodeReplace y := by
  have hfirst : decodeReplace x = (feed none x).1 ++ flush (feed none x).2 := rfl
  rw [decodeReplace, finish_append, finish_cons, step_newline, hfirst, decodeReplace]
  simp only [List.append_assoc, List.singleton_append]

/-- Each line feed of the bytes is one of the text. -/
theorem count_le_finish (state : Option Begun) (bytes : List UInt8) :
    bytes.count 10 ≤ (finish state bytes).count 10 := by
  induction bytes generalizing state with
  | nil => exact Nat.zero_le _
  | cons b rest ih =>
    rw [finish_cons, List.count_append]
    by_cases hb : b = 10
    · have hrest : rest.count 10 ≤ (finish (flush state ++ [10], none).2 rest).count 10 := ih none
      rw [hb, step_newline, List.count_cons_self, List.count_append, List.count_singleton_self]
      omega
    · have hrest := ih (step state b).2
      rw [List.count_cons_of_ne hb]
      omega

/-! ## Characters over a border -/

/-- The bytes go on with the character that has begun. -/
def continues (state : Option Begun) (bytes : List UInt8) : Bool :=
  match state, bytes with
  | some begun, b :: _ => begun.accepts b
  | _, _ => false

/-- Bytes that do not go on with the character decode on their own. -/
theorem finish_of_not_continues {state : Option Begun} {bytes : List UInt8}
    (h : continues state bytes = false) :
    finish state bytes = flush state ++ decodeReplace bytes := by
  cases state with
  | none => rfl
  | some begun =>
    cases bytes with
    | nil => rfl
    | cons b rest =>
      have haccepts : ¬ begun.accepts b = true := Bool.eq_false_iff.mp h
      rw [finish_cons, step, if_neg haccepts, decodeReplace, finish_cons]
      rfl

/-- A byte that goes on with a character starts none. -/
theorem first_of_accepts {begun : Begun} {b : UInt8} (h : begun.accepts b = true) :
    first b = ([replacement], none) := by
  rw [Begun.accepts, Bool.and_eq_true, decide_eq_true_eq, decide_eq_true_eq] at h
  have hlow := begun.isTail.1
  have hhigh := begun.isTail.2
  simp only [first]
  repeat rw [if_neg (by omega)]

/-- With a character begun, bytes never decode to more than on their own; they decode to less when
they go on with it. -/
theorem length_finish (begun : Begun) (bytes : List UInt8) :
    (finish (some begun) bytes).length ≤ 1 + (decodeReplace bytes).length ∧
      (continues (some begun) bytes = true →
        (finish (some begun) bytes).length < 1 + (decodeReplace bytes).length) := by
  induction bytes generalizing begun with
  | nil => exact ⟨Nat.le_refl 1, fun h => absurd h Bool.false_ne_true⟩
  | cons b rest ih =>
    by_cases haccepts : begun.accepts b = true
    · have hown : (decodeReplace (b :: rest)).length = 1 + (decodeReplace rest).length := by
        rw [decodeReplace, finish_cons, step, first_of_accepts haccepts, List.length_append]
        rfl
      have hless : (finish (some begun) (b :: rest)).length ≤ 1 + (decodeReplace rest).length := by
        rw [finish_cons, step, if_pos haccepts]
        cases hlacks : begun.lacks with
        | zero =>
          simp only [List.length_append, List.length_singleton]
          exact Nat.le_refl _
        | succ lacks =>
          simp only [List.nil_append]
          exact (ih _).1
      exact ⟨by omega, fun _ => by omega⟩
    · have hcontinues : continues (some begun) (b :: rest) = false := Bool.eq_false_iff.mpr haccepts
      refine ⟨?_, fun h => absurd h (Bool.eq_false_iff.mp hcontinues)⟩
      rw [finish_of_not_continues hcontinues, List.length_append]
      exact Nat.le_refl _

/-- What has begun at the end of the bytes. -/
def pending (bytes : List UInt8) : Option Begun := (feed none bytes).2

/-- Two parts decode on their own when the second does not continue the first. -/
theorem decodeReplace_append {x y : List UInt8} (h : continues (pending x) y = false) :
    decodeReplace (x ++ y) = decodeReplace x ++ decodeReplace y := by
  rw [decodeReplace, finish_append, ← pending, finish_of_not_continues h, ← List.append_assoc]
  rfl

/-- Two parts never decode to less on their own than together, and to more when the second
continues the first. -/
theorem length_decodeReplace_append (x y : List UInt8) :
    (decodeReplace (x ++ y)).length ≤ (decodeReplace x).length + (decodeReplace y).length ∧
      (continues (pending x) y = true →
        (decodeReplace (x ++ y)).length <
          (decodeReplace x).length + (decodeReplace y).length) := by
  have htogether : (decodeReplace (x ++ y)).length =
      (feed none x).1.length + (finish (pending x) y).length := by
    rw [decodeReplace, finish_append, List.length_append, pending]
  have hfirst : (decodeReplace x).length = (feed none x).1.length + (flush (pending x)).length := by
    rw [decodeReplace, finish, List.length_append, pending]
  rw [htogether, hfirst]
  cases hpending : pending x with
  | none =>
    refine ⟨?_, fun h => absurd h Bool.false_ne_true⟩
    rw [flush, List.length_nil, Nat.add_zero]
    exact Nat.le_refl _
  | some begun =>
    have hlength := length_finish begun y
    rw [flush, List.length_singleton]
    exact ⟨by omega, fun h => by have := hlength.2 h; omega⟩

end Utf8Replace

end OpenstackPlatform.Library
