import OpenstackPlatform.Library.JsonText

/-!
# Timestamps

Points in time of the proleptic Gregorian calendar, in seconds from the start of year 1, and their
compact UTC form `YYYYMMDDTHHMMSSZ`.

The form has a fixed width, so that texts are in the order of the times they stand for
(`seconds_lt_of_lt`): who sorts names by text sorts them by time.

* `daysBeforeYear`, `daysInMonth`, `daysBeforeMonth`, `ordinal`: the calendar.
* `seconds`: the time of a text, `none` when there is no such date or time of day.
-/

namespace OpenstackPlatform
namespace Library
namespace Calendar

open Text JsonText

/-- A leap year. -/
def isLeap (year : ℕ) : Bool := year % 4 == 0 && (year % 100 != 0 || year % 400 == 0)

/-- The days before the first of January of a year. -/
def daysBeforeYear (year : ℕ) : ℕ :=
  (year - 1) * 365 + (year - 1) / 4 - (year - 1) / 100 + (year - 1) / 400

/-- The days of a month. -/
def daysInMonth (year month : ℕ) : ℕ :=
  if month = 2 then if isLeap year then 29 else 28
  else if month = 4 ∨ month = 6 ∨ month = 9 ∨ month = 11 then 30
  else 31

/-- The days of a year before the first of a month. -/
def daysBeforeMonth (year : ℕ) : ℕ → ℕ
  | 0 => 0
  | 1 => 0
  | month + 2 => daysBeforeMonth year (month + 1) + daysInMonth year (month + 1)

/-- The number of a day, counted from the start of year 1. -/
def ordinal (year month day : ℕ) : ℕ := daysBeforeYear year + daysBeforeMonth year month + day

/-- The form `YYYYMMDDTHHMMSSZ`. -/
def isTimestamp (t : Text) : Bool :=
  t.length == 16 && (t.take 8).all isDigit && (t.drop 8).take 1 == [84] &&
    ((t.drop 9).take 6).all isDigit && t.drop 15 == [90]

/-- The digits of a field. -/
def field (t : Text) (start width : ℕ) : ℕ := decimal ((t.drop start).take width)

/-- The time of a timestamp. -/
def seconds (t : Text) : Option ℕ :=
  let year := field t 0 4
  let month := field t 4 2
  let day := field t 6 2
  let hour := field t 9 2
  let minute := field t 11 2
  let second := field t 13 2
  if isTimestamp t && decide (1 ≤ year) && decide (1 ≤ month ∧ month ≤ 12) &&
      decide (1 ≤ day ∧ day ≤ daysInMonth year month) && decide (hour < 24) && decide (minute < 60) &&
      decide (second < 60) then
    some (((ordinal year month day * 24 + hour) * 60 + minute) * 60 + second)
  else none

/-! ## The calendar is ordered -/

theorem isLeap_iff (year : ℕ) :
    isLeap year = true ↔ year % 4 = 0 ∧ (year % 100 ≠ 0 ∨ year % 400 = 0) := by
  rw [isLeap, Bool.and_eq_true, Bool.or_eq_true, beq_iff_eq, bne_iff_ne, beq_iff_eq]

theorem daysBeforeYear_succ {year : ℕ} (h : 1 ≤ year) :
    daysBeforeYear (year + 1) = daysBeforeYear year + if isLeap year then 366 else 365 := by
  obtain ⟨n, rfl⟩ : ∃ n, year = n + 1 := ⟨year - 1, by omega⟩
  have h4 : (n + 1) / 4 = n / 4 + if (n + 1) % 4 = 0 then 1 else 0 := by
    split <;> omega
  have h100 : (n + 1) / 100 = n / 100 + if (n + 1) % 100 = 0 then 1 else 0 := by
    split <;> omega
  have h400 : (n + 1) / 400 = n / 400 + if (n + 1) % 400 = 0 then 1 else 0 := by
    split <;> omega
  have hle : n / 100 ≤ n / 4 := Nat.div_le_div_left (by decide) (by decide)
  have hdvd : (n + 1) % 400 = 0 → (n + 1) % 100 = 0 := by omega
  have hdvd' : (n + 1) % 100 = 0 → (n + 1) % 4 = 0 := by omega
  unfold daysBeforeYear
  rw [Nat.add_sub_cancel, Nat.add_sub_cancel, h4, h100, h400]
  generalize n / 4 = a at *
  generalize n / 100 = b at *
  generalize n / 400 = d at *
  by_cases hleap : isLeap (n + 1) = true
  · rw [if_pos hleap]
    obtain ⟨hfour, hhundred⟩ := (isLeap_iff _).mp hleap
    by_cases hh : (n + 1) % 100 = 0
    · rw [if_pos hfour, if_pos hh, if_pos (hhundred.resolve_left (not_not.mpr hh))]
      omega
    · rw [if_pos hfour, if_neg hh, if_neg (fun h => hh (hdvd h))]
      omega
  · rw [if_neg hleap]
    rw [isLeap_iff, not_and_or, not_or, not_not] at hleap
    obtain hfour | ⟨hh, hfour⟩ := hleap
    · rw [if_neg hfour, if_neg (fun h => hfour (hdvd' h)), if_neg (fun h => hfour (hdvd' (hdvd h)))]
      omega
    · rw [if_pos (hdvd' hh), if_pos hh, if_neg hfour]
      omega

/-- A year has the days of its twelve months. -/
theorem daysBeforeMonth_thirteen (year : ℕ) :
    daysBeforeMonth year 13 = if isLeap year then 366 else 365 := by
  cases hleap : isLeap year with
  | true => simp [daysBeforeMonth, daysInMonth, hleap]
  | false => simp [daysBeforeMonth, daysInMonth, hleap]

theorem daysBeforeMonth_mono (year : ℕ) {month month' : ℕ} (h : 1 ≤ month) (hlt : month < month') :
    daysBeforeMonth year month + daysInMonth year month ≤ daysBeforeMonth year month' := by
  induction month' with
  | zero => omega
  | succ n ih =>
    obtain ⟨m, rfl⟩ : ∃ m, n = m + 1 := ⟨n - 1, by omega⟩
    rw [daysBeforeMonth]
    by_cases heq : month = m + 1
    · rw [heq]
    · have := ih (by omega)
      omega

theorem daysBeforeYear_mono {year year' : ℕ} (h : 1 ≤ year) (hlt : year < year') :
    daysBeforeYear year + daysBeforeMonth year 13 ≤ daysBeforeYear year' := by
  induction year' with
  | zero => omega
  | succ n ih =>
    by_cases heq : year = n
    · rw [← heq, daysBeforeYear_succ h, daysBeforeMonth_thirteen]
    · have hprevious := ih (by omega)
      have hyear : 1 ≤ n := by omega
      have hnext := daysBeforeYear_succ hyear
      omega

/-- A day of the calendar. -/
structure IsDate (year month day : ℕ) : Prop where
  year_pos : 1 ≤ year
  month_ok : 1 ≤ month ∧ month ≤ 12
  day_ok : 1 ≤ day ∧ day ≤ daysInMonth year month

theorem IsDate.day_lt {year month day : ℕ} (h : IsDate year month day) : day < 100 := by
  have hday := h.day_ok
  unfold daysInMonth at hday
  split at hday
  · split at hday <;> omega
  · split at hday <;> omega

/-- Earlier days have smaller numbers. -/
theorem ordinal_lt {y m d y' m' d' : ℕ} (h : IsDate y m d) (h' : IsDate y' m' d')
    (hlt : y < y' ∨ y = y' ∧ (m < m' ∨ m = m' ∧ d < d')) : ordinal y m d < ordinal y' m' d' := by
  have hday := h.day_ok
  have hday' := h'.day_ok
  unfold ordinal
  obtain hyear | ⟨rfl, hmonth | ⟨rfl, hd⟩⟩ := hlt
  · have hyears := daysBeforeYear_mono h.year_pos hyear
    have hlast : m < 13 := by
      have := h.month_ok
      omega
    have hmonths := daysBeforeMonth_mono y h.month_ok.1 hlast
    omega
  · have hmonths := daysBeforeMonth_mono y h.month_ok.1 hmonth
    omega
  · omega

/-! ## Timestamps are ordered -/

theorem foldl_decimal (t : Text) (n : ℕ) :
    t.foldl (fun n c => 10 * n + (c - 48)) n = n * 10 ^ t.length + decimal t := by
  induction t generalizing n with
  | nil => simp [decimal]
  | cons c t ih =>
    rw [decimal, List.foldl_cons, List.foldl_cons, ih, ih, List.length_cons, pow_succ]
    ring

theorem decimal_add (s t : Text) : decimal (s ++ t) = decimal s * 10 ^ t.length + decimal t := by
  rw [decimal_append, foldl_decimal]

/-- Of two runs of digits of one length the smaller one is first. -/
theorem foldl_decimal_lt : ∀ {s t : Text} {n m : ℕ}, s.all isDigit = true → t.all isDigit = true →
    s.length = t.length → (n < m ∨ n = m ∧ s < t) →
      s.foldl (fun n c => 10 * n + (c - 48)) n < t.foldl (fun n c => 10 * n + (c - 48)) m
  | [], [], _, _, _, _, _, h => by
    obtain h | ⟨-, h⟩ := h
    · exact h
    · exact absurd h (List.not_lt_nil _)
  | [], _ :: _, _, _, _, _, hlength, _ => absurd hlength (by simp)
  | _ :: _, [], _, _, _, _, hlength, _ => absurd hlength (by simp)
  | c :: s, d :: t, n, m, hs, ht, hlength, h => by
    rw [List.all_cons, Bool.and_eq_true, isDigit, Bool.and_eq_true, decide_eq_true_eq,
      decide_eq_true_eq] at hs ht
    rw [List.foldl_cons, List.foldl_cons]
    refine foldl_decimal_lt hs.2 ht.2 (Nat.succ.inj hlength) ?_
    rw [List.cons_lt_cons_iff] at h
    obtain hn | ⟨rfl, hhead | ⟨rfl, htail⟩⟩ := h
    · exact .inl (by omega)
    · exact .inl (by omega)
    · exact .inr ⟨rfl, htail⟩

theorem decimal_lt {s t : Text} (hs : s.all isDigit = true) (ht : t.all isDigit = true)
    (hlength : s.length = t.length) (h : s < t) : decimal s < decimal t :=
  foldl_decimal_lt hs ht hlength (.inr ⟨rfl, h⟩)

/-- The order of texts that start with runs of one length. -/
theorem lt_append : ∀ {s t s' t' : Text}, s.length = t.length → s ++ s' < t ++ t' →
    s < t ∨ s = t ∧ s' < t'
  | [], [], _, _, _, h => .inr ⟨rfl, h⟩
  | [], _ :: _, _, _, hlength, _ => absurd hlength (by simp)
  | _ :: _, [], _, _, hlength, _ => absurd hlength (by simp)
  | c :: s, d :: t, s', t', hlength, h => by
    rw [List.cons_append, List.cons_append, List.cons_lt_cons_iff] at h
    rw [List.cons_lt_cons_iff]
    obtain hhead | ⟨rfl, htail⟩ := h
    · exact .inl (.inl hhead)
    · obtain hfirst | ⟨rfl, hsecond⟩ := lt_append (Nat.succ.inj hlength) htail
      · exact .inl (.inr ⟨rfl, hfirst⟩)
      · exact .inr ⟨rfl, hsecond⟩

/-- The parts of a timestamp. -/
structure Parts (t : Text) : Prop where
  length : t.length = 16
  date : (t.take 8).all isDigit = true
  separator : (t.drop 8).take 1 = [84]
  time : ((t.drop 9).take 6).all isDigit = true
  zone : t.drop 15 = [90]

theorem parts_of_isTimestamp {t : Text} (h : isTimestamp t = true) : Parts t := by
  rw [isTimestamp, Bool.and_eq_true, Bool.and_eq_true, Bool.and_eq_true, Bool.and_eq_true,
    beq_iff_eq, beq_iff_eq, beq_iff_eq] at h
  obtain ⟨⟨⟨⟨h₁, h₂⟩, h₃⟩, h₄⟩, h₅⟩ := h
  exact ⟨h₁, h₂, h₃, h₄, h₅⟩

theorem Parts.decimal_date {t : Text} (h : Parts t) :
    decimal (t.take 8) = (field t 0 4 * 100 + field t 4 2) * 100 + field t 6 2 := by
  have hsplit : t.take 8 = ((t.drop 0).take 4 ++ (t.drop 4).take 2) ++ (t.drop 6).take 2 := by
    rw [List.drop_zero, ← List.take_add, ← List.take_add]
  have hlength := h.length
  rw [hsplit, decimal_add, decimal_add, field, field, field]
  simp only [List.length_take, List.length_drop, hlength]
  norm_num

theorem Parts.decimal_time {t : Text} (h : Parts t) :
    decimal ((t.drop 9).take 6) = (field t 9 2 * 100 + field t 11 2) * 100 + field t 13 2 := by
  have hsplit : (t.drop 9).take 6 =
      ((t.drop 9).take 2 ++ (t.drop 11).take 2) ++ (t.drop 13).take 2 := by
    have h₁ := List.take_add (l := t.drop 9) (i := 2) (j := 2)
    have h₂ := List.take_add (l := t.drop 9) (i := 4) (j := 2)
    rw [List.drop_drop] at h₁ h₂
    rw [h₂, h₁]
  have hlength := h.length
  rw [hsplit, decimal_add, decimal_add, field, field, field]
  simp only [List.length_take, List.length_drop, hlength]
  norm_num

/-- What a timestamp of a time looks like. -/
structure Reads (t : Text) (a : ℕ) : Prop where
  parts : Parts t
  date : IsDate (field t 0 4) (field t 4 2) (field t 6 2)
  time_ok : field t 9 2 < 24 ∧ field t 11 2 < 60 ∧ field t 13 2 < 60
  eq : a = ((ordinal (field t 0 4) (field t 4 2) (field t 6 2) * 24 + field t 9 2) * 60 +
    field t 11 2) * 60 + field t 13 2

theorem reads_of_seconds {t : Text} {a : ℕ} (h : seconds t = some a) : Reads t a := by
  rw [seconds] at h
  split at h
  · rename_i hok
    simp only [Bool.and_eq_true, decide_eq_true_eq] at hok
    obtain ⟨⟨⟨⟨⟨⟨hform, hyear⟩, hmonth⟩, hday⟩, hhour⟩, hminute⟩, hsecond⟩ := hok
    exact ⟨parts_of_isTimestamp hform, ⟨hyear, hmonth, hday⟩, ⟨hhour, hminute, hsecond⟩,
      (Option.some.inj h).symm⟩
  · cases h

theorem isTimestamp_of_seconds {t : Text} {a : ℕ} (h : seconds t = some a) :
    isTimestamp t = true := by
  rw [seconds] at h
  split at h
  · rename_i hok
    simp only [Bool.and_eq_true] at hok
    exact hok.1.1.1.1.1.1
  · cases h

/-- Timestamps are in the order of their times. -/
theorem seconds_lt_of_lt {s t : Text} {a b : ℕ} (hs : seconds s = some a) (ht : seconds t = some b)
    (h : s < t) : a < b := by
  have hs := reads_of_seconds hs
  have ht := reads_of_seconds ht
  have hdates := hs.parts.decimal_date
  have hdates' := ht.parts.decimal_date
  have htimes := hs.parts.decimal_time
  have htimes' := ht.parts.decimal_time
  have hlength := hs.parts.length
  have hlength' := ht.parts.length
  have hmonth := hs.date.month_ok
  have hmonth' := ht.date.month_ok
  have hday := hs.date.day_lt
  have hday' := ht.date.day_lt
  obtain ⟨hhour, hminute, hsecond⟩ := hs.time_ok
  obtain ⟨hhour', hminute', hsecond'⟩ := ht.time_ok
  rw [← List.take_append_drop 8 s, ← List.take_append_drop 8 t] at h
  rw [hs.eq, ht.eq]
  obtain hdate | ⟨heq, hrest⟩ := lt_append (by simp [hlength, hlength']) h
  · have hlt := decimal_lt hs.parts.date ht.parts.date (by simp [hlength, hlength']) hdate
    have hordinal := ordinal_lt hs.date ht.date (by omega)
    omega
  · have hsame : field s 0 4 = field t 0 4 ∧ field s 4 2 = field t 4 2 ∧
        field s 6 2 = field t 6 2 := by
      rw [heq] at hdates
      omega
    have htime : (s.drop 9).take 6 < (t.drop 9).take 6 := by
      rw [← List.take_append_drop 1 (s.drop 8), ← List.take_append_drop 1 (t.drop 8),
        hs.parts.separator, ht.parts.separator, List.drop_drop, List.drop_drop] at hrest
      obtain hrest | ⟨-, hrest⟩ := lt_append rfl hrest
      · exact absurd hrest (lt_irrefl _)
      · rw [← List.take_append_drop 6 (s.drop 9), ← List.take_append_drop 6 (t.drop 9),
          List.drop_drop, List.drop_drop, hs.parts.zone, ht.parts.zone] at hrest
        obtain hrest | ⟨-, hrest⟩ := lt_append (by simp [hlength, hlength']) hrest
        · exact hrest
        · exact absurd hrest (lt_irrefl _)
    have hlt := decimal_lt hs.parts.time ht.parts.time (by simp [hlength, hlength']) htime
    rw [hsame.1, hsame.2.1, hsame.2.2]
    omega

end Calendar
end Library
end OpenstackPlatform
