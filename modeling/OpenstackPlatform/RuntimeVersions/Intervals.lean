import Mathlib.Data.Prod.Lex
import Mathlib.Data.List.MinMax
import OpenstackPlatform.Library.Bounds

/-!
# Versions of a runtime

The intervals of `runtime_versions.py`, and the check of a request against the oldest supported
line.

A key is a version with a mark that tells a release from the pre-releases before it, so that between
two keys there may be no release.  `lowest` and `highest` are about releases.

* `Key`, `Version`: the order of versions.
* `lowest`, `highest`, `VersionRange`: the releases of an interval and of a range.
* `checked`: the check after parsing.
* `lowest_isLeast`, `le_highest`, `checked_eq_error_iff`, put together in `intervals`.
-/

namespace OpenstackPlatform
namespace RuntimeVersions

open Library

/-! ## Keys -/

/-- `_Key`: a version; without `release`, what comes just before it. -/
structure Key where
  major : ℕ
  minor : ℕ
  patch : ℕ
  release : Bool
  deriving DecidableEq, Repr

namespace Key

/-- The order of the tuples. -/
def tuple (key : Key) : ℕ ×ₗ ℕ ×ₗ ℕ ×ₗ Bool :=
  toLex (key.major, toLex (key.minor, toLex (key.patch, key.release)))

theorem tuple_injective : Function.Injective tuple := by
  intro a b h
  obtain ⟨hmajor, h⟩ := Prod.mk.inj (toLex.injective h)
  obtain ⟨hminor, h⟩ := Prod.mk.inj (toLex.injective h)
  obtain ⟨hpatch, hrelease⟩ := Prod.mk.inj (toLex.injective h)
  cases a
  cases b
  simp only at hmajor hminor hpatch hrelease
  rw [hmajor, hminor, hpatch, hrelease]

instance : LinearOrder Key := LinearOrder.lift' tuple tuple_injective

theorem lt_iff {a b : Key} : a < b ↔ a.major < b.major ∨ a.major = b.major ∧
    (a.minor < b.minor ∨ a.minor = b.minor ∧ (a.patch < b.patch ∨ a.patch = b.patch ∧
      (a.release = false ∧ b.release = true))) := by
  show tuple a < tuple b ↔ _
  rw [tuple, tuple, Prod.Lex.toLex_lt_toLex, Prod.Lex.toLex_lt_toLex, Prod.Lex.toLex_lt_toLex]
  rw [show a.release < b.release ↔ a.release = false ∧ b.release = true from Bool.lt_iff]

theorem le_iff {a b : Key} : a ≤ b ↔ a.major < b.major ∨ a.major = b.major ∧
    (a.minor < b.minor ∨ a.minor = b.minor ∧ (a.patch < b.patch ∨ a.patch = b.patch ∧
      (a.release = false ∨ b.release = true))) := by
  rw [← not_lt, lt_iff]
  cases a.release <;> cases b.release <;> simp only [Bool.false_eq_true, Bool.true_eq_false,
    and_false, and_true, or_false, or_true] <;> omega

theorem ext_iff' {a b : Key} : a = b ↔ a.major = b.major ∧ a.minor = b.minor ∧
    a.patch = b.patch ∧ a.release = b.release := by
  cases a
  cases b
  simp only [mk.injEq]

end Key

/-- A release. -/
@[ext] structure Version where
  major : ℕ
  minor : ℕ
  patch : ℕ
  deriving DecidableEq, Repr

def Version.key (version : Version) : Key := ⟨version.major, version.minor, version.patch, true⟩

/-! ## The releases of an interval -/

/-- `_Interval` -/
abbrev Interval : Type := Span Key

/-- `_UNBOUNDED` -/
def unbounded : ℕ := 1000000000

/-- The first release that a lower bound lets through. -/
def start (low : Option (Bound Key)) : Key :=
  match low with
  | none => ⟨0, 0, 0, true⟩
  | some bound =>
    ⟨bound.key.major, bound.key.minor,
      bound.key.patch + if bound.key.release && !bound.inclusive then 1 else 0, true⟩

/-- `_Span.lowest` -/
def lowest (interval : Interval) : Option Key :=
  if interval.admits (start interval.low) then some (start interval.low) else none

/-- `_Span.highest`, of an interval with releases. -/
def highest (interval : Interval) : Key :=
  match interval.high with
  | none => ⟨unbounded, unbounded, unbounded, true⟩
  | some bound =>
    if bound.inclusive && bound.key.release then
      ⟨bound.key.major, bound.key.minor, bound.key.patch, true⟩
    else if bound.key.patch ≠ 0 then
      ⟨bound.key.major, bound.key.minor, bound.key.patch - 1, true⟩
    else if bound.key.minor ≠ 0 then
      ⟨bound.key.major, bound.key.minor - 1, unbounded, true⟩
    else
      -- No release is below 0.0.0, so the major version is not 0 here.
      ⟨bound.key.major - 1, unbounded, unbounded, true⟩

/-- `_ANY` -/
def any : Interval := ⟨none, none⟩

/-- `_NOTHING` -/
def nothing : Interval := ⟨none, some ⟨⟨0, 0, 0, false⟩, false⟩⟩

/-- The intervals of a range; any of them may match. -/
structure VersionRange where
  alternatives : List (Interval)
  deriving DecidableEq, Repr

namespace VersionRange

def admits (range : VersionRange) (version : Version) : Bool :=
  range.alternatives.any (·.admits version.key)

/-- The lowest releases of the intervals that have any. -/
def lowests (range : VersionRange) : List Key := range.alternatives.filterMap lowest

/-- The highest releases of the intervals that have any. -/
def highests (range : VersionRange) : List Key :=
  (range.alternatives.filter fun interval => (lowest interval).isSome).map highest

end VersionRange

/-! ## Requests -/

inductive Runtime where
  | node
  | bun
  deriving DecidableEq, Repr

namespace Runtime

/-- `RUNTIME_NAMES` -/
def name : Runtime → String
  | node => "Node.js"
  | bun => "Bun"

/-- `OLDEST_LINES` -/
def oldestLine : Runtime → ℕ × ℕ
  | node => (20, 0)
  | bun => (1, 1)

/-- `oldest_supported` -/
def oldestSupported : Runtime → String
  | node => toString (oldestLine node).1
  | bun => toString (oldestLine bun).1 ++ "." ++ toString (oldestLine bun).2

/-- The first key of the oldest line. -/
def floor (runtime : Runtime) : Key := ⟨runtime.oldestLine.1, runtime.oldestLine.2, 0, false⟩

/-- `_line` -/
def line (runtime : Runtime) (key : Key) : String :=
  match runtime with
  | node => "Node.js " ++ toString key.major
  | bun => "Bun " ++ toString key.major ++ "." ++
      if key.minor = unbounded then "x" else toString key.minor

end Runtime

structure RuntimeRequest where
  runtime : Runtime
  field : String
  value : String
  wanted : String
  versions : Option VersionRange
  deriving DecidableEq, Repr

/-- The exceptions of the module. -/
inductive RequestError where
  | version (message : String)
  | validation (message : String)
  | assertion
  deriving DecidableEq, Repr

/-- A character of `_QUOTABLE`: `[ !#-\[\]-~]` -/
def isQuotable (c : Char) : Bool := 32 ≤ c.toNat && c.toNat ≤ 126 && c != '"' && c != '\\'

/-- `_quoted` -/
def quoted (value : String) : String :=
  if 1 ≤ value.length ∧ value.length ≤ 64 ∧ value.toList.all isQuotable then
    " \"" ++ value ++ "\""
  else ""

/-- The message about a request for versions that are too old. -/
def tooOld (request : RuntimeRequest) (range : VersionRange) : String :=
  let newest := request.runtime.line (range.highests.max?.getD ⟨0, 0, 0, true⟩)
  let oldest := request.runtime.line (range.lowests.min?.getD ⟨0, 0, 0, true⟩)
  let asks := if oldest = newest then newest else newest ++ " or earlier"
  request.field ++ quoted request.value ++ " asks for " ++ asks ++
    ", older than the oldest supported version (" ++ request.runtime.oldestSupported ++ ")."

/-- `_checked` -/
def checked (request : RuntimeRequest) : Except RequestError RuntimeRequest :=
  match request.versions with
  | none => .error .assertion
  | some range =>
    if range.lowests.isEmpty then
      .error (.version (request.field ++ quoted request.value ++ " doesn't match any " ++
        request.runtime.name ++ " version."))
    else if range.alternatives.any fun interval =>
        (lowest (interval.intersect ⟨some ⟨request.runtime.floor, true⟩, none⟩)).isSome then
      .ok request
    else .error (.version (tooOld request range))

/-! ## The lowest release -/

theorem isBelow_start (interval : Interval) :
    interval.low.all (·.isBelow (start interval.low)) = true := by
  cases hlow : interval.low with
  | none => rfl
  | some bound =>
    rw [Option.all_some, Bound.isBelow_iff, start, Key.lt_iff, Key.ext_iff']
    cases hrelease : bound.key.release with
    | false => simp
    | true =>
      cases hinclusive : bound.inclusive with
      | false => simp
      | true => simp

variable {version : Version}

/-- No release that a lower bound lets through is before the first one. -/
theorem start_le {low : Option (Bound Key)} (h : low.all (·.isBelow version.key) = true) :
    start low ≤ version.key := by
  cases low with
  | none =>
    rw [start, Key.le_iff]
    simp only [Version.key, or_true, and_true]
    omega
  | some bound =>
    rw [Option.all_some, Bound.isBelow_iff, Key.lt_iff, Key.ext_iff'] at h
    rw [start, Key.le_iff]
    simp only [Version.key] at h ⊢
    cases hrelease : bound.key.release with
    | false =>
      rw [hrelease] at h
      simp only [Bool.false_and, Bool.false_eq_true, if_false, Nat.add_zero, and_true, or_true]
      omega
    | true =>
      rw [hrelease] at h
      cases hinclusive : bound.inclusive with
      | false =>
        rw [hinclusive] at h
        simp only [Bool.not_false, Bool.and_true, if_true, or_true, and_true]
        simp only [Bool.true_eq_false, Bool.false_eq_true, false_and, and_false, or_false] at h
        omega
      | true =>
        rw [hinclusive] at h
        simp only [Bool.not_true, Bool.and_false, Bool.false_eq_true, if_false, Nat.add_zero,
          or_true, and_true]
        simp only [Bool.true_eq_false, false_and, and_false, or_false, true_and] at h
        omega

/-- The first release as a version. -/
theorem exists_start (low : Option (Bound Key)) : ∃ version : Version, version.key = start low := by
  cases low with
  | none => exact ⟨⟨0, 0, 0⟩, rfl⟩
  | some bound => exact ⟨⟨_, _, _⟩, rfl⟩

variable {interval : Interval}

/-- The lowest release is admitted, and no admitted release is before it. -/
theorem lowest_isLeast {key : Key} (h : lowest interval = some key) :
    (∃ version : Version, version.key = key ∧ interval.admits version.key = true) ∧
      ∀ version : Version, interval.admits version.key = true → key ≤ version.key := by
  rw [lowest] at h
  split at h
  · rename_i hadmits
    cases h
    obtain ⟨version, hversion⟩ := exists_start interval.low
    refine ⟨⟨version, hversion, by rwa [hversion]⟩, fun other hother => ?_⟩
    exact start_le (Span.admits_iff.mp hother).1
  · cases h

/-- An interval without a lowest release has none. -/
theorem not_admits_of_lowest (h : lowest interval = none) (version : Version) :
    interval.admits version.key = false := by
  by_contra hadmits
  rw [Bool.not_eq_false] at hadmits
  have hle := start_le (Span.admits_iff.mp hadmits).1
  have hstart := Span.admits_of_le hadmits hle (isBelow_start interval)
  rw [lowest, if_pos hstart] at h
  cases h

theorem lowest_isSome_iff : (lowest interval).isSome = true ↔
    ∃ version : Version, interval.admits version.key = true := by
  cases h : lowest interval with
  | none =>
    constructor
    · intro hsome
      cases hsome
    · rintro ⟨version, hversion⟩
      rw [not_admits_of_lowest h version] at hversion
      cases hversion
  | some key =>
    obtain ⟨⟨version, -, hadmits⟩, -⟩ := lowest_isLeast h
    exact ⟨fun _ => ⟨version, hadmits⟩, fun _ => rfl⟩

/-! ## The highest release -/

/-- A version whose components are not above the one that stands for any. -/
def Version.Bounded (version : Version) : Prop :=
  version.major ≤ unbounded ∧ version.minor ≤ unbounded ∧ version.patch ≤ unbounded

/-- No admitted release is after the highest one. -/
theorem le_highest (hbounded : version.Bounded) (h : interval.admits version.key = true) :
    version.key ≤ highest interval := by
  have hhigh := (Span.admits_iff.mp h).2
  obtain ⟨hmajor, hminor, hpatch⟩ := hbounded
  rw [highest]
  cases hbound : interval.high with
  | none =>
    rw [Key.le_iff]
    simp only [Version.key, or_true, and_true]
    omega
  | some bound =>
    rw [hbound, Option.all_some, Bound.isAbove_iff, Key.lt_iff, Key.ext_iff'] at hhigh
    simp only [Version.key, Bool.true_eq_false, false_and, and_false, or_false] at hhigh
    simp only
    by_cases hexact : (bound.inclusive && bound.key.release) = true
    · rw [if_pos hexact, Key.le_iff]
      simp only [Version.key, or_true, and_true]
      omega
    · have hlt : version.major < bound.key.major ∨ version.major = bound.key.major ∧
          (version.minor < bound.key.minor ∨ version.minor = bound.key.minor ∧
            version.patch < bound.key.patch) := by
        obtain hlt | ⟨hinclusive, -, -, -, hrelease⟩ := hhigh
        · exact hlt
        · rw [hinclusive, ← hrelease] at hexact
          exact absurd rfl hexact
      rw [if_neg hexact]
      by_cases hp : bound.key.patch ≠ 0
      · rw [if_pos hp, Key.le_iff]
        simp only [Version.key, or_true, and_true]
        omega
      · rw [if_neg hp]
        by_cases hm : bound.key.minor ≠ 0
        · rw [if_pos hm, Key.le_iff]
          simp only [Version.key, or_true, and_true]
          omega
        · rw [if_neg hm, Key.le_iff]
          simp only [Version.key, or_true, and_true]
          omega

/-! ## Ranges -/

variable {range : VersionRange}

theorem VersionRange.admits_iff : range.admits version = true ↔
      ∃ interval ∈ range.alternatives, interval.admits version.key = true := by
  rw [VersionRange.admits, List.any_eq_true]

/-- The lowest of the lowest releases is the least admitted one. -/
theorem VersionRange.lowests_isLeast {key : Key} (h : range.lowests.min? = some key) :
    (∃ version : Version, version.key = key ∧ range.admits version = true) ∧
      ∀ version : Version, range.admits version = true → key ≤ version.key := by
  obtain ⟨hmem, hle⟩ := List.min?_eq_some_iff.mp h
  obtain ⟨interval, hinterval, hlowest⟩ := List.mem_filterMap.mp hmem
  obtain ⟨⟨version, hversion, hadmits⟩, -⟩ := lowest_isLeast hlowest
  refine ⟨⟨version, hversion, admits_iff.mpr ⟨interval, hinterval, hadmits⟩⟩, ?_⟩
  intro other hother
  obtain ⟨interval', hinterval', hadmits'⟩ := admits_iff.mp hother
  obtain ⟨key', hkey'⟩ := Option.isSome_iff_exists.mp (lowest_isSome_iff.mpr ⟨other, hadmits'⟩)
  have hkey := hle key' (List.mem_filterMap.mpr ⟨interval', hinterval', hkey'⟩)
  exact hkey.trans ((lowest_isLeast hkey').2 other hadmits')

theorem VersionRange.not_admits_of_lowests (h : range.lowests = []) (version : Version) :
    range.admits version = false := by
  by_contra hadmits
  rw [Bool.not_eq_false, admits_iff] at hadmits
  obtain ⟨interval, hinterval, hadmits⟩ := hadmits
  obtain ⟨key, hkey⟩ := Option.isSome_iff_exists.mp (lowest_isSome_iff.mpr ⟨version, hadmits⟩)
  have hmem : key ∈ range.lowests := List.mem_filterMap.mpr ⟨interval, hinterval, hkey⟩
  rw [h] at hmem
  cases hmem

/-- The highest of the highest releases is after every admitted one. -/
theorem VersionRange.le_highests {key : Key} (h : range.highests.max? = some key)
    (hbounded : version.Bounded) (hadmits : range.admits version = true) : version.key ≤ key := by
  obtain ⟨-, hle⟩ := List.max?_eq_some_iff.mp h
  obtain ⟨interval, hinterval, hadmits⟩ := admits_iff.mp hadmits
  refine (le_highest hbounded hadmits).trans (hle _ (List.mem_map.mpr ⟨interval, ?_, rfl⟩))
  exact List.mem_filter.mpr ⟨hinterval, lowest_isSome_iff.mpr ⟨version, hadmits⟩⟩

/-- A release is on or above a line. -/
theorem floor_isBelow {runtime : Runtime} :
    (Bound.mk runtime.floor true).isBelow version.key = true ↔
      runtime.oldestLine.1 < version.major ∨
        runtime.oldestLine.1 = version.major ∧ runtime.oldestLine.2 ≤ version.minor := by
  rw [Bound.isBelow_iff, Key.lt_iff, Key.ext_iff']
  simp only [Runtime.floor, Version.key, Bool.true_eq_false, and_false, or_false, and_self, and_true]
  omega

/-- The check refuses a request when no release it admits is on or above the oldest line. -/
theorem checked_eq_error_iff {request : RuntimeRequest} (h : request.versions = some range) :
    (∃ error, checked request = .error error) ↔
      ∀ version : Version, range.admits version = true →
        ¬(request.runtime.oldestLine.1 < version.major ∨
          request.runtime.oldestLine.1 = version.major ∧
            request.runtime.oldestLine.2 ≤ version.minor) := by
  have hsupported : (range.alternatives.any fun interval =>
      (lowest (interval.intersect ⟨some ⟨request.runtime.floor, true⟩, none⟩)).isSome) = true ↔
        ∃ version : Version, range.admits version = true ∧
          (request.runtime.oldestLine.1 < version.major ∨
            request.runtime.oldestLine.1 = version.major ∧
              request.runtime.oldestLine.2 ≤ version.minor) := by
    rw [List.any_eq_true]
    constructor
    · rintro ⟨interval, hinterval, hsome⟩
      obtain ⟨version, hversion⟩ := lowest_isSome_iff.mp hsome
      rw [Span.admits_intersect, Bool.and_eq_true] at hversion
      exact ⟨version, VersionRange.admits_iff.mpr ⟨interval, hinterval, hversion.1⟩,
        floor_isBelow.mp (Span.admits_iff.mp hversion.2).1⟩
    · rintro ⟨version, hadmits, hline⟩
      obtain ⟨interval, hinterval, hadmits⟩ := VersionRange.admits_iff.mp hadmits
      refine ⟨interval, hinterval, lowest_isSome_iff.mpr ⟨version, ?_⟩⟩
      rw [Span.admits_intersect, hadmits, Bool.true_and]
      exact Span.admits_iff.mpr ⟨floor_isBelow.mpr hline, rfl⟩
  rw [checked, h]
  simp only
  split
  · rename_i hempty
    refine ⟨fun _ version hadmits => ?_, fun _ => ⟨_, rfl⟩⟩
    rw [VersionRange.not_admits_of_lowests (List.isEmpty_iff.mp hempty) version] at hadmits
    cases hadmits
  · split
    · rename_i hany
      obtain ⟨version, hadmits, hline⟩ := hsupported.mp hany
      constructor
      · rintro ⟨error, herror⟩
        cases herror
      · intro hall
        exact absurd hline (hall version hadmits)
    · rename_i hnone
      refine ⟨fun _ version hadmits hline => hnone (hsupported.mpr ⟨version, hadmits, hline⟩),
        fun _ => ⟨_, rfl⟩⟩

/-- **The algebra of intervals and ranges**: intersections, the least version that is admitted, and
whether there is one.  `highest` writes a fixed number for a bound that is missing, and so it is an
upper bound of the versions below that number only. -/
theorem intervals :
    (∀ (a b : Interval) (version : Version), (a.intersect b).admits version.key =
      (a.admits version.key && b.admits version.key)) ∧
    (∀ (interval : Interval) (key : Key), lowest interval = some key →
      (∃ version : Version, version.key = key ∧ interval.admits version.key = true) ∧
        ∀ version : Version, interval.admits version.key = true → key ≤ version.key) ∧
    (∀ interval : Interval, lowest interval = none ↔
      ∀ version : Version, interval.admits version.key = false) ∧
    (∀ (range : VersionRange) (key : Key), range.lowests.min? = some key →
      (∃ version : Version, version.key = key ∧ range.admits version = true) ∧
        ∀ version : Version, range.admits version = true → key ≤ version.key) ∧
    (∀ range : VersionRange, range.lowests = [] ↔
      ∀ version : Version, range.admits version = false) ∧
    (∀ (interval : Interval) (version : Version), version.Bounded →
      interval.admits version.key = true → version.key ≤ highest interval) ∧
    (∀ (range : VersionRange) (key : Key) (version : Version), range.highests.max? = some key →
      version.Bounded → range.admits version = true → version.key ≤ key) ∧
    (∀ (request : RuntimeRequest) (range : VersionRange), request.versions = some range →
      ((∃ error, checked request = .error error) ↔ ∀ version : Version,
        range.admits version = true → ¬(request.runtime.oldestLine.1 < version.major ∨
          request.runtime.oldestLine.1 = version.major ∧
            request.runtime.oldestLine.2 ≤ version.minor))) := by
  refine ⟨fun a b version => Span.admits_intersect a b version.key,
    fun interval key => lowest_isLeast, fun interval => ⟨not_admits_of_lowest, fun hnone => ?_⟩,
    fun range key => VersionRange.lowests_isLeast,
    fun range => ⟨VersionRange.not_admits_of_lowests, fun hnone => ?_⟩,
    fun interval version => le_highest,
    fun range key version hkey => VersionRange.le_highests hkey,
    fun request range => checked_eq_error_iff⟩
  · by_contra hsome
    obtain ⟨version, hversion⟩ := lowest_isSome_iff.mp (Option.isSome_iff_ne_none.mpr hsome)
    rw [hnone version] at hversion
    cases hversion
  · by_contra hne
    obtain ⟨key, hkey⟩ := List.exists_mem_of_ne_nil _ hne
    obtain ⟨interval, hinterval, hlowest⟩ := List.mem_filterMap.mp hkey
    obtain ⟨⟨version, -, hadmits⟩, -⟩ := lowest_isLeast hlowest
    have hall := hnone version
    rw [VersionRange.admits_iff.mpr ⟨interval, hinterval, hadmits⟩] at hall
    cases hall

/-- A release of ten digits is after the highest one of an unbounded interval. -/
theorem highest_not_bound : ¬∀ (interval : Interval) (version : Version),
    lowest interval ≠ none → interval.admits version.key = true →
      version.key ≤ highest interval := by
  intro h
  have hle := h any ⟨1000000001, 0, 0⟩ (by decide) (by decide)
  rw [Key.le_iff] at hle
  exact absurd hle (by decide)

end RuntimeVersions
end OpenstackPlatform
