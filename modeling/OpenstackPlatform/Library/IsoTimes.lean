import OpenstackPlatform.Library.Calendar

/-!
# ISO texts of times

Points in time with microseconds, and their ISO texts with second and with microsecond precision in
UTC.  The two forms agree up to the seconds, where one goes on with a point and the other with `Z`.
The point is before `Z`, so a text with microseconds is no later than a text with seconds exactly
when its whole second is no later (`isoMicroseconds_le_isoSeconds`).

* `yearOf`, `monthOf`, `dayOf`, `ordinal_of`: the date of a day's number.
* `Moment`, `Moment.seconds`, `Moment.add`: a time, and a later one.
* `padded`, `fieldsText`: fields of fixed width.
* `isoMicroseconds`, `isoSeconds`: the texts.
-/

namespace OpenstackPlatform.Library

namespace Calendar

open Text JsonText

/-! ## Dates of day numbers -/

/-- The last year, of those up to a bound, that starts before a day. -/
def yearUpTo (n : Nat) : Nat → Nat
  | 0 => 0
  | y + 1 => if daysBeforeYear (y + 1) < n then y + 1 else yearUpTo n y

/-- The year of a day. -/
def yearOf (n : Nat) : Nat := yearUpTo n (n / 365 + 1)

/-- The last month, of those up to a bound, that starts before a day of the year. -/
def monthUpTo (year r : Nat) : Nat → Nat
  | 0 => 0
  | m + 1 => if daysBeforeMonth year (m + 1) < r then m + 1 else monthUpTo year r m

/-- The month of a day. -/
def monthOf (n : Nat) : Nat := monthUpTo (yearOf n) (n - daysBeforeYear (yearOf n)) 12

/-- The day of a month. -/
def dayOf (n : Nat) : Nat :=
  n - daysBeforeYear (yearOf n) - daysBeforeMonth (yearOf n) (monthOf n)

theorem daysBeforeYear_one : daysBeforeYear 1 = 0 := by decide

theorem daysBeforeMonth_one (year : Nat) : daysBeforeMonth year 1 = 0 := by
  rw [daysBeforeMonth]

theorem yearUpTo_spec {n bound : Nat} (hn : 0 < n) (hpos : 1 ≤ bound)
    (hbound : n ≤ daysBeforeYear (bound + 1)) :
    1 ≤ yearUpTo n bound ∧ daysBeforeYear (yearUpTo n bound) < n ∧
      n ≤ daysBeforeYear (yearUpTo n bound + 1) := by
  induction bound with
  | zero => cases hpos
  | succ y ih =>
    rw [yearUpTo]
    split
    · rename_i hstart
      exact ⟨by omega, hstart, hbound⟩
    · rename_i hstart
      have hy : 1 ≤ y := by
        by_contra hzero
        obtain rfl : y = 0 := by omega
        rw [Nat.zero_add, daysBeforeYear_one] at hstart
        exact hstart hn
      exact ih hy (Nat.le_of_not_lt hstart)

theorem yearOf_spec {n : Nat} (hn : 0 < n) :
    1 ≤ yearOf n ∧ daysBeforeYear (yearOf n) < n ∧ n ≤ daysBeforeYear (yearOf n + 1) := by
  refine yearUpTo_spec hn (by omega) ?_
  have hless : n < 365 * (n / 365 + 1) := Nat.lt_mul_div_succ n (by decide)
  have hdays : (n / 365 + 1) * 365 ≤ daysBeforeYear (n / 365 + 1 + 1) := by
    rw [daysBeforeYear, Nat.add_sub_cancel]
    have : (n / 365 + 1) / 100 ≤ (n / 365 + 1) / 4 := Nat.div_le_div_left (by decide) (by decide)
    omega
  omega

theorem monthUpTo_spec {year r bound : Nat} (hr : 0 < r) (hpos : 1 ≤ bound)
    (hbound : r ≤ daysBeforeMonth year (bound + 1)) :
    1 ≤ monthUpTo year r bound ∧ monthUpTo year r bound ≤ bound ∧
      daysBeforeMonth year (monthUpTo year r bound) < r ∧
        r ≤ daysBeforeMonth year (monthUpTo year r bound + 1) := by
  induction bound with
  | zero => cases hpos
  | succ m ih =>
    rw [monthUpTo]
    split
    · rename_i hstart
      exact ⟨by omega, Nat.le_refl _, hstart, hbound⟩
    · rename_i hstart
      have hm : 1 ≤ m := by
        by_contra hzero
        obtain rfl : m = 0 := by omega
        rw [Nat.zero_add, daysBeforeMonth_one] at hstart
        exact hstart hr
      obtain ⟨hfirst, hle, hspec⟩ := ih hm (Nat.le_of_not_lt hstart)
      exact ⟨hfirst, by omega, hspec⟩

/-- The date of a day, and its number. -/
theorem ordinal_of {n : Nat} (hn : 0 < n) :
    IsDate (yearOf n) (monthOf n) (dayOf n) ∧ ordinal (yearOf n) (monthOf n) (dayOf n) = n := by
  obtain ⟨hyear, hstart, hend⟩ := yearOf_spec hn
  have hlength := daysBeforeMonth_thirteen (yearOf n)
  have hnext := daysBeforeYear_succ hyear
  have hrest : 0 < n - daysBeforeYear (yearOf n) := by omega
  have hyearEnd : n - daysBeforeYear (yearOf n) ≤ daysBeforeMonth (yearOf n) (12 + 1) := by
    rw [hlength]
    omega
  obtain ⟨hmonth, hlast, hfirst, hbelow⟩ := monthUpTo_spec hrest (by decide) hyearEnd
  rw [← monthOf] at hmonth hlast hfirst hbelow
  obtain ⟨m, hm⟩ : ∃ m, monthOf n = m + 1 := ⟨monthOf n - 1, by omega⟩
  have hdays : daysBeforeMonth (yearOf n) (monthOf n + 1) =
      daysBeforeMonth (yearOf n) (monthOf n) + daysInMonth (yearOf n) (monthOf n) := by
    rw [hm, daysBeforeMonth]
  refine ⟨⟨hyear, ⟨hmonth, hlast⟩, ?_⟩, ?_⟩
  · rw [dayOf]
    omega
  · rw [ordinal, dayOf]
    omega

/-! ## Fields of fixed width -/

/-- The last digits of a number. -/
def padded : Nat → Nat → Text
  | 0, _ => []
  | width + 1, n => padded width (n / 10) ++ [48 + n % 10]

theorem length_padded (width n : Nat) : (padded width n).length = width := by
  induction width generalizing n with
  | zero => rfl
  | succ width ih => rw [padded, List.length_append, ih, List.length_singleton]

theorem decimal_padded {width n : Nat} (h : n < 10 ^ width) : decimal (padded width n) = n := by
  induction width generalizing n with
  | zero =>
    rw [pow_zero] at h
    obtain rfl : n = 0 := by omega
    rfl
  | succ width ih =>
    have hrest : n / 10 < 10 ^ width := by
      rw [pow_succ] at h
      omega
    have hlast : decimal [48 + n % 10] = n % 10 := by
      rw [decimal, List.foldl_cons, List.foldl_nil]
      omega
    rw [padded, decimal_add, ih hrest, hlast, List.length_singleton, pow_one]
    omega

theorem all_isDigit_padded (width n : Nat) : (padded width n).all isDigit = true := by
  induction width generalizing n with
  | zero => rfl
  | succ width ih =>
    rw [padded, List.all_append, ih, Bool.true_and, List.all_cons, List.all_nil, Bool.and_true,
      isDigit, Bool.and_eq_true, decide_eq_true_eq, decide_eq_true_eq]
    omega

/-- Fields of one width are in the order of their numbers. -/
theorem padded_lt {width n m : Nat} (hn : n < 10 ^ width) (hm : m < 10 ^ width) (h : n < m) :
    padded width n < padded width m := by
  have hlength : (padded width m).length = (padded width n).length := by
    rw [length_padded, length_padded]
  rcases lt_trichotomy (padded width n) (padded width m) with hlt | heq | hgt
  · exact hlt
  · have := congrArg decimal heq
    rw [decimal_padded hn, decimal_padded hm] at this
    omega
  · have := decimal_lt (all_isDigit_padded _ _) (all_isDigit_padded _ _) hlength hgt
    rw [decimal_padded hn, decimal_padded hm] at this
    omega

/-- The order of two texts is that of what they start with, or of what follows it. -/
theorem append_lt {s t s' t' : Text} (hlength : s.length = t.length)
    (h : s < t ∨ s = t ∧ s' < t') : s ++ s' < t ++ t' := by
  induction s generalizing t with
  | nil =>
    obtain rfl := List.eq_nil_of_length_eq_zero hlength.symm
    rcases h with h | h
    · exact absurd h (lt_irrefl _)
    · exact h.2
  | cons c s ih =>
    obtain ⟨d, t, rfl⟩ := List.exists_cons_of_length_eq_add_one hlength.symm
    rw [List.cons_append, List.cons_append, List.cons_lt_cons_iff]
    rw [List.cons_lt_cons_iff] at h
    rcases h with (hhead | ⟨rfl, htail⟩) | ⟨heq, hrest⟩
    · exact .inl hhead
    · exact .inr ⟨rfl, ih (Nat.succ.inj hlength) (.inl htail)⟩
    · obtain ⟨rfl, rfl⟩ := List.cons.inj heq
      exact .inr ⟨rfl, ih rfl (.inr ⟨rfl, hrest⟩)⟩

/-- Numbers in fields, each with what follows it. -/
def fieldsText : List (Nat × Text) → List Nat → Text
  | (width, mark) :: pattern, n :: numbers =>
    padded width n ++ (mark ++ fieldsText pattern numbers)
  | _, _ => []

/-- Numbers that fit their fields. -/
def Fit (pattern : List (Nat × Text)) (numbers : List Nat) : Prop :=
  List.Forall₂ (fun field n => n < 10 ^ field.1) pattern numbers

theorem length_fieldsText {pattern : List (Nat × Text)} {numbers numbers' : List Nat}
    (h : Fit pattern numbers) (h' : Fit pattern numbers') :
    (fieldsText pattern numbers).length = (fieldsText pattern numbers').length := by
  induction h generalizing numbers' with
  | nil =>
    cases h'
    rfl
  | @cons field n pattern numbers _ _ ih =>
    cases h' with
    | @cons _ n' _ numbers' _ htail =>
      simp only [fieldsText, List.length_append, length_padded, ih htail]

/-- Texts of fields are in the order of the numbers. -/
theorem fieldsText_lt {pattern : List (Nat × Text)} {numbers numbers' : List Nat}
    (h : Fit pattern numbers) (h' : Fit pattern numbers') (hlt : numbers < numbers') :
    fieldsText pattern numbers < fieldsText pattern numbers' := by
  induction h generalizing numbers' with
  | nil =>
    cases h'
    exact absurd hlt (lt_irrefl _)
  | @cons field n pattern numbers hn _ ih =>
    cases h' with
    | @cons _ n' _ numbers' hn' htail =>
      simp only [fieldsText]
      refine append_lt (by rw [length_padded, length_padded]) ?_
      rw [List.cons_lt_cons_iff] at hlt
      rcases hlt with hlt | ⟨rfl, hlt⟩
      · exact .inl (padded_lt hn hn' hlt)
      · exact .inr ⟨rfl, append_lt rfl (.inr ⟨rfl, ih htail hlt⟩)⟩

/-! ## Moments -/

/-- The microseconds before the year 10000. -/
def maxMicros : Nat := 3652059 * 86400 * 1000000

/-- A time of the calendar, in microseconds from the start of the year 1. -/
structure Moment where
  micros : Nat
  inRange : micros < maxMicros

namespace Moment

/-- The whole seconds of a time. -/
def seconds (m : Moment) : Nat := m.micros / 1000000

/-- `m + timedelta(seconds=delay)`, which raises after the year 9999. -/
def add (m : Moment) (delay : Nat) : Option Moment :=
  if h : m.micros + delay * 1000000 < maxMicros then some ⟨m.micros + delay * 1000000, h⟩ else none

/-- The number of a time's day. -/
def day (m : Moment) : Nat := m.seconds / 86400 + 1

/-- The year, month, day, hour, minute and second. -/
def fields (m : Moment) : List Nat :=
  [yearOf m.day, monthOf m.day, dayOf m.day, m.seconds % 86400 / 3600, m.seconds % 86400 / 60 % 60,
    m.seconds % 60]

theorem seconds_of_add {m next : Moment} {delay : Nat} (h : m.add delay = some next) :
    next.seconds = m.seconds + delay := by
  rw [add] at h
  split at h
  · cases h
    exact Nat.add_mul_div_right _ _ (by decide)
  · cases h

/-- The date of a time. -/
theorem date (m : Moment) : IsDate (yearOf m.day) (monthOf m.day) (dayOf m.day) ∧
    ordinal (yearOf m.day) (monthOf m.day) (dayOf m.day) = m.day :=
  ordinal_of (Nat.succ_pos _)

variable {a b : Moment}

/-- Days are in the order of their dates. -/
theorem day_lt (h : yearOf a.day < yearOf b.day ∨ yearOf a.day = yearOf b.day ∧
      (monthOf a.day < monthOf b.day ∨ monthOf a.day = monthOf b.day ∧ dayOf a.day < dayOf b.day)) :
    a.day < b.day := by
  have hlt := ordinal_lt a.date.1 b.date.1 h
  rwa [a.date.2, b.date.2] at hlt

/-- Times are in the order of their fields. -/
theorem seconds_lt (h : a.fields < b.fields) : a.seconds < b.seconds := by
  have hday : a.day < b.day → a.seconds < b.seconds := by
    rw [day, day]
    omega
  simp only [fields, List.cons_lt_cons_iff] at h
  rcases h with hyear | ⟨hyear, hmonth | ⟨hmonth, hdate | ⟨hdate, htime⟩⟩⟩
  · exact hday (day_lt (.inl hyear))
  · exact hday (day_lt (.inr ⟨hyear, .inl hmonth⟩))
  · exact hday (day_lt (.inr ⟨hyear, .inr ⟨hmonth, hdate⟩⟩))
  · have hsame : a.day = b.day := by
      rw [← a.date.2, ← b.date.2, hyear, hmonth, hdate]
    rw [day, day] at hsame
    rcases htime with hhour | ⟨hhour, hminute | ⟨hminute, hsecond | ⟨_, hnone⟩⟩⟩
    · omega
    · omega
    · omega
    · exact absurd hnone (lt_irrefl _)

/-- A time's seconds are told by its fields. -/
theorem seconds_inj (h : a.fields = b.fields) : a.seconds = b.seconds := by
  simp only [fields, List.cons.injEq] at h
  obtain ⟨hyear, hmonth, hdate, hhour, hminute, hsecond, -⟩ := h
  have hsame : a.day = b.day := by
    rw [← a.date.2, ← b.date.2, hyear, hmonth, hdate]
  rw [day, day] at hsame
  omega

/-- The fields are in the order of the seconds. -/
theorem fields_lt (h : a.seconds < b.seconds) : a.fields < b.fields := by
  rcases lt_trichotomy a.fields b.fields with hlt | heq | hgt
  · exact hlt
  · exact absurd (seconds_inj heq) (Nat.ne_of_lt h)
  · exact absurd (seconds_lt hgt) (Nat.lt_asymm h)

/-! ## Texts -/

/-- `%Y-%m-%dT%H:%M:%S` -/
def pattern : List (Nat × Text) := [(4, [45]), (2, [45]), (2, [84]), (2, [58]), (2, [58]), (2, [])]

/-- The text of the whole seconds, without the zone. -/
def date19 (m : Moment) : Text := fieldsText pattern m.fields

/-- `m.isoformat(timespec="seconds")` with `Z` for the zone. -/
def isoSeconds (m : Moment) : Text := m.date19 ++ [90]

/-- `m.isoformat(timespec="microseconds")` with `Z` for the zone. -/
def isoMicroseconds (m : Moment) : Text :=
  m.date19 ++ (46 :: (padded 6 (m.micros % 1000000) ++ [90]))

theorem day_le (m : Moment) : m.day ≤ daysBeforeYear 10000 := by
  have hrange := m.inRange
  have hdays : daysBeforeYear 10000 = 3652059 := by decide
  rw [maxMicros] at hrange
  rw [hdays, day, seconds]
  omega

theorem year_lt (m : Moment) : yearOf m.day < 10000 := by
  by_contra hlarge
  have hstart : daysBeforeYear (yearOf m.day) < m.day := (yearOf_spec (Nat.succ_pos _)).2.1
  have hend := m.day_le
  rcases Nat.eq_or_lt_of_le (Nat.le_of_not_lt hlarge) with heq | hlt
  · rw [heq] at hend
    exact absurd hstart (Nat.not_lt_of_le hend)
  · have := daysBeforeYear_mono (by decide) hlt
    omega

/-- The fields of a time fit the text. -/
theorem fit (m : Moment) : Fit pattern m.fields := by
  have hmonth := m.date.1.month_ok
  have hday := m.date.1.day_lt
  refine .cons m.year_lt (.cons ?_ (.cons hday (.cons ?_ (.cons ?_ (.cons ?_ .nil)))))
  · exact Nat.lt_of_le_of_lt hmonth.2 (by decide)
  · have : m.seconds % 86400 / 3600 < 24 := by omega
    exact Nat.lt_trans this (by decide)
  · exact Nat.lt_trans (Nat.mod_lt _ (by decide)) (by decide : 60 < 10 ^ 2)
  · exact Nat.lt_trans (Nat.mod_lt _ (by decide)) (by decide : 60 < 10 ^ 2)

theorem date19_lt (h : a.seconds < b.seconds) : a.date19 < b.date19 :=
  fieldsText_lt a.fit b.fit (fields_lt h)

/-- Texts with two precisions are in the order of the whole seconds. -/
theorem isoMicroseconds_le_isoSeconds :
    a.isoMicroseconds ≤ b.isoSeconds ↔ a.seconds ≤ b.seconds := by
  have hlength : a.date19.length = b.date19.length := length_fieldsText a.fit b.fit
  constructor
  · intro h
    by_contra hlater
    have hlt : b.isoSeconds < a.isoMicroseconds :=
      append_lt hlength.symm (.inl (date19_lt (Nat.lt_of_not_le hlater)))
    exact absurd h (not_le_of_gt hlt)
  · intro h
    rcases Nat.lt_or_eq_of_le h with hlt | heq
    · exact le_of_lt (append_lt hlength (.inl (date19_lt hlt)))
    · have hdate : a.date19 = b.date19 := by
        rw [date19, date19, fields, fields, day, day, heq]
      -- at the end of the seconds the point is before the zone
      refine le_of_lt (append_lt hlength (.inr ⟨hdate, ?_⟩))
      exact List.cons_lt_cons_iff.mpr (.inl (by decide))

end Moment

end Calendar

end OpenstackPlatform.Library
