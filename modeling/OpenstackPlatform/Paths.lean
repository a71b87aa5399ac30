import OpenstackPlatform.Validation
import OpenstackPlatform.Library.Text
import Mathlib.Algebra.BigOperators.Group.List.Basic
import Mathlib.Algebra.Order.BigOperators.Group.List
import Mathlib.Algebra.Order.Ring.Nat

/-!
# Texts that owners write

`relative_path`, `health_path`, `script_name` and `resource_name` of `validation.py`, with the part
of `PurePosixPath` under them.  A check that fails gives the message of its `ValidationError`.

* `segments`, `normalPath`: `PurePosixPath(value).parts` and `str(PurePosixPath(value))` of a
  relative path.
* `relativePath`, `healthPath`: the checks.
* `relativePath_normal`: what was accepted is accepted again, unchanged.
-/

namespace OpenstackPlatform
namespace Validation

open Library

/-! ## Pure paths -/

/-- The parts of a path without its root: what stands between slashes, without empty parts and
single dots. -/
def segments (path : List Char) : List (List Char) :=
  (path.splitOn '/').filter fun p => p != [] && p != ['.']

/-- Parts with slashes between them; a single dot for none. -/
def joinSegments (parts : List (List Char)) : List Char :=
  if parts = [] then ['.'] else List.intercalate ['/'] parts

/-- `str(PurePosixPath(value))`, of a relative path. -/
def normalPath (value : String) : String := String.ofList (joinSegments (segments value.toList))

/-- `piece in text` -/
def contains (piece text : List Char) : Bool := text.tails.any fun rest => piece.isPrefixOf rest

/-! ## Checks -/

/-- `if condition: raise ValidationError(message)` -/
def refuse (condition : Bool) (message : String) : Except String Unit :=
  if condition then .error message else .ok ()

/-- A computation after a check succeeds when the check passes and it does. -/
@[simp] theorem refuse_bind_eq_ok {α : Type} {condition : Bool} {message : String}
    {f : Unit → Except String α} {a : α} :
    (refuse condition message >>= f) = .ok a ↔ condition = false ∧ f () = .ok a := by
  cases condition <;> simp [refuse, bind, Except.bind]

/-- `relative_path`, of a text that can be encoded. -/
def relativePath (field value : String) : Except String String := do
  refuse (value == "" || 1024 < value.utf8ByteSize)
    s!"{field} must be a non-empty repository-relative path"
  refuse (value.toList.contains '\\' || value.toList.contains '\x00')
    s!"{field} contains unsupported characters"
  refuse (value.toList.head? == some '/' || (segments value.toList).contains ['.', '.'])
    s!"{field} must remain inside the repository"
  refuse (['.', '/'].isPrefixOf value.toList || contains ['/', '/'] value.toList)
    s!"{field} must be normalized"
  return normalPath value

/-- `health_path` -/
def healthPath (value : Text) : Except String String := do
  refuse (!(1 ≤ value.length && value.length ≤ 256)) "health path is malformed"
  refuse (value.head? != some 47 || [47, 47].isPrefixOf value || value.contains 63 ||
      value.contains 35)
    "health path must be an absolute path without query or fragment"
  refuse (value.any fun c => c < 0x21 || 0x7E < c) "health path contains unsupported characters"
  refuse ((segments (value.map Char.ofNat)).contains ['.', '.'] || value.contains 92)
    "health path must be normalized"
  return String.ofList (value.map Char.ofNat)

/-- `[A-Za-z0-9]` -/
def isAlnum (c : Char) : Bool := c.isUpper || isLowerAlnum c

/-- `_SCRIPT_NAME`: `[A-Za-z0-9][A-Za-z0-9:._-]{0,127}` -/
def isScriptName (s : String) : Bool :=
  match s.toList with
  | [] => false
  | c :: cs =>
    isAlnum c && cs.length ≤ 127 &&
      cs.all fun d => isAlnum d || d == ':' || d == '.' || d == '_' || d == '-'

/-- `resource_name`: `[a-z][a-z0-9-]{0,38}[a-z0-9]|[a-z]`, without two hyphens in a row. -/
def isResourceName (s : String) : Bool :=
  match s.toList with
  | [] => false
  | c :: cs =>
    c.isLower && cs.length ≤ 39 && (cs.all fun d => isLowerAlnum d || d == '-') &&
      (cs.getLast?.all isLowerAlnum) && !contains ['-', '-'] (c :: cs)

/-! ## Joining and splitting -/

/-- A part that a pure path keeps. -/
structure IsSegment (p : List Char) : Prop where
  nonempty : p ≠ []
  notDot : p ≠ ['.']
  noSlash : '/' ∉ p

theorem isSegment_of_mem_segments {path p : List Char} (h : p ∈ segments path) : IsSegment p := by
  obtain ⟨hmem, hp⟩ := List.mem_filter.mp h
  obtain ⟨hne, hdot⟩ := Bool.and_eq_true_iff.mp hp
  exact ⟨by simpa using hne, by simpa using hdot, notMem_of_mem_splitOn hmem⟩

/-- The parts of joined parts are these parts. -/
theorem segments_joinSegments {parts : List (List Char)} (h : ∀ p ∈ parts, IsSegment p) :
    segments (joinSegments parts) = parts := by
  by_cases hnil : parts = []
  · subst hnil
    rfl
  · rw [joinSegments, if_neg hnil, segments,
      List.splitOn_intercalate '/' (fun p hp => (h p hp).noSlash) hnil, List.filter_eq_self]
    intro p hp
    rw [Bool.and_eq_true, bne_iff_ne, bne_iff_ne]
    exact ⟨(h p hp).nonempty, (h p hp).notDot⟩

/-! ## Joined parts -/

theorem contains_cons (piece : List Char) (c : Char) (t : List Char) :
    contains piece (c :: t) = (piece.isPrefixOf (c :: t) || contains piece t) := rfl

/-- Two slashes stand next to each other in neither of two texts around a slash, when the second
does not start with one. -/
theorem contains_slashes_append {p t : List Char} (hp : '/' ∉ p)
    (ht : contains ['/', '/'] t = false) : contains ['/', '/'] (p ++ t) = false := by
  induction p with
  | nil => exact ht
  | cons c p ih =>
    rw [List.mem_cons, not_or] at hp
    have := ih hp.2
    rw [List.cons_append, contains_cons, List.isPrefixOf_cons_cons,
      beq_eq_false_iff_ne.mpr (Ne.symm (Ne.symm hp.1)), Bool.false_and, Bool.false_or]
    exact this

theorem contains_slashes_cons {t : List Char} (hhead : t.head? ≠ some '/')
    (ht : contains ['/', '/'] t = false) : contains ['/', '/'] ('/' :: t) = false := by
  rw [contains_cons, ht, Bool.or_false]
  cases t with
  | nil => rfl
  | cons c t =>
    have hc : '/' ≠ c := fun hc => hhead (by rw [hc]; rfl)
    rw [List.isPrefixOf_cons_cons, List.isPrefixOf_cons_cons, beq_eq_false_iff_ne.mpr hc,
      Bool.false_and, Bool.and_false]

/-- Joined parts have no two slashes next to each other. -/
theorem contains_slashes_intercalate : ∀ {parts : List (List Char)},
    (∀ p ∈ parts, IsSegment p) → contains ['/', '/'] (List.intercalate ['/'] parts) = false
  | [], _ => rfl
  | [p], h => by
    have hp := (h p List.mem_cons_self).noSlash
    have := contains_slashes_append hp (t := []) rfl
    rwa [List.append_nil, ← intercalate_singleton p] at this
  | p :: q :: qs, h => by
    have hp := h p List.mem_cons_self
    have hq := h q (List.mem_cons_of_mem _ List.mem_cons_self)
    rw [intercalate_cons_cons]
    refine contains_slashes_append hp.noSlash (contains_slashes_cons ?_
      (contains_slashes_intercalate fun r hr => h r (List.mem_cons_of_mem _ hr)))
    rw [head?_intercalate hq.nonempty]
    intro hhead
    exact hq.noSlash (List.mem_of_mem_head? (by rw [hhead]; rfl))

/-- Joined parts do not start with a dot and a slash. -/
theorem dotSlash_not_prefix {p : List Char} (hp : IsSegment p) (ps : List (List Char)) :
    ['.', '/'].isPrefixOf (List.intercalate ['/'] (p :: ps)) = false := by
  rw [Bool.eq_false_iff, ne_eq, List.isPrefixOf_iff_prefix]
  rintro ⟨t, ht⟩
  match p, hp with
  | [], hp => exact hp.nonempty rfl
  | [c], hp =>
    have hc : c = '.' := by
      have hhead := head?_intercalate (d := '/') hp.nonempty ps
      rw [← ht] at hhead
      exact (Option.some.inj hhead).symm
    exact hp.notDot (by rw [hc])
  | c :: d :: p, hp =>
    have hd : d = '/' := by
      cases ps with
      | nil =>
        rw [intercalate_singleton] at ht
        exact (List.cons.inj (List.cons.inj ht).2).1.symm
      | cons q qs =>
        rw [intercalate_cons_cons] at ht
        exact (List.cons.inj (List.cons.inj ht).2).1.symm
    exact hp.noSlash (by rw [hd]; simp)

/-! ## Sizes -/

/-- The UTF-8 bytes of a list of characters. -/
def byteSize (l : List Char) : Nat := (l.map Char.utf8Size).sum

@[simp] theorem utf8ByteSize_ofList : ∀ l : List Char,
    (String.ofList l).utf8ByteSize = byteSize l
  | [] => rfl
  | c :: l => by
    rw [← List.singleton_append, String.ofList_append, String.utf8ByteSize_append,
      ← String.singleton_eq_ofList, String.utf8ByteSize_singleton, utf8ByteSize_ofList l, byteSize,
      byteSize, List.map_append, List.sum_append, List.map_singleton, List.sum_singleton]

theorem byteSize_append (l m : List Char) : byteSize (l ++ m) = byteSize l + byteSize m := by
  rw [byteSize, List.map_append, List.sum_append, byteSize, byteSize]

/-- The bytes of joined parts, with one more for a slash after the last. -/
theorem byteSize_intercalate : ∀ {parts : List (List Char)}, parts ≠ [] →
    byteSize (List.intercalate ['/'] parts) + 1 = (parts.map fun p => byteSize p + 1).sum
  | [], h => absurd rfl h
  | [p], _ => by rw [intercalate_singleton, List.map_singleton, List.sum_singleton]
  | p :: q :: qs, _ => by
    have ih := byteSize_intercalate (List.cons_ne_nil q qs)
    have hslash : byteSize ('/' :: List.intercalate ['/'] (q :: qs)) =
        1 + byteSize (List.intercalate ['/'] (q :: qs)) := by
      rw [← List.singleton_append, byteSize_append]
      rfl
    rw [intercalate_cons_cons, byteSize_append, hslash, List.map_cons, List.sum_cons, ← ih]
    omega

theorem sum_map_filter_le (f : List Char → Nat) (p : List Char → Bool) :
    ∀ parts : List (List Char), ((parts.filter p).map f).sum ≤ (parts.map f).sum
  | [] => Nat.le_refl _
  | q :: qs => by
    have ih := sum_map_filter_le f p qs
    rw [List.map_cons, List.sum_cons]
    by_cases h : p q = true
    · rw [List.filter_cons_of_pos h, List.map_cons, List.sum_cons]
      omega
    · rw [List.filter_cons_of_neg h]
      omega

/-- The normal form of a path is no longer than the path. -/
theorem byteSize_joinSegments_le {path : List Char} (h : path ≠ []) :
    byteSize (joinSegments (segments path)) ≤ byteSize path := by
  by_cases hnil : segments path = []
  · rw [joinSegments, if_pos hnil]
    cases path with
    | nil => exact absurd rfl h
    | cons c l =>
      have hc := c.utf8Size_pos
      have hcons : byteSize (c :: l) = c.utf8Size + byteSize l := by
        rw [byteSize, List.map_cons, List.sum_cons, byteSize]
      have hdot : byteSize ['.'] = 1 := rfl
      omega
  · rw [joinSegments, if_neg hnil]
    have hjoined := byteSize_intercalate hnil
    have hwhole := byteSize_intercalate (List.splitOn_ne_nil '/' path)
    rw [List.intercalate_splitOn] at hwhole
    have hle := sum_map_filter_le (fun p => byteSize p + 1)
      (fun p => p != [] && p != ['.']) (path.splitOn '/')
    rw [← segments] at hle
    omega

/-! ## What is accepted again -/

/-- An accepted path is the normal form of what was given, which has no parent directory in it. -/
structure RelativePath (value result : String) : Prop where
  result_eq : result = normalPath value
  size : result.utf8ByteSize ≤ 1024
  supported : '\\' ∉ result.toList ∧ '\x00' ∉ result.toList
  inside : ['.', '.'] ∉ segments value.toList

theorem toList_normalPath (value : String) :
    (normalPath value).toList = joinSegments (segments value.toList) := by
  rw [normalPath, String.toList_ofList]

theorem relativePath_ok {field value result : String}
    (h : relativePath field value = .ok result) : RelativePath value result := by
  simp only [relativePath, refuse_bind_eq_ok, Bool.or_eq_false_iff, beq_eq_false_iff_ne,
    decide_eq_false_iff_not, not_lt, List.contains_eq_mem, decide_eq_false_iff_not] at h
  obtain ⟨⟨hne, hsize⟩, ⟨hslash, hnul⟩, ⟨-, hinside⟩, -, h⟩ := h
  cases h
  have hnil : value.toList ≠ [] := by
    intro hnil
    exact hne (String.toList_inj.mp hnil)
  have hmem : ∀ c, c ≠ '/' → c ≠ '.' → c ∉ value.toList → c ∉ (normalPath value).toList := by
    intro c hc hdot hvalue hnormal
    rw [toList_normalPath, joinSegments] at hnormal
    split at hnormal
    · exact hdot (List.mem_singleton.mp hnormal)
    · rcases mem_intercalate hnormal with h | ⟨p, hp, hcp⟩
      · exact hc h
      · have hsub : c ∈ List.intercalate ['/'] (value.toList.splitOn '/') :=
          mem_intercalate_of_mem (List.mem_of_mem_filter hp) hcp
        rw [List.intercalate_splitOn] at hsub
        exact hvalue hsub
  refine ⟨rfl, ?_, ⟨hmem _ (by decide) (by decide) hslash, hmem _ (by decide) (by decide) hnul⟩,
    hinside⟩
  rw [normalPath, utf8ByteSize_ofList]
  refine (byteSize_joinSegments_le hnil).trans ?_
  rwa [← utf8ByteSize_ofList, String.ofList_toList]

/-- A path that was accepted is accepted again, unchanged. -/
theorem relativePath_normal {field value result : String}
    (h : relativePath field value = .ok result) : relativePath field result = .ok result := by
  obtain ⟨rfl, hsize, ⟨hslash, hnul⟩, hinside⟩ := relativePath_ok h
  have hsegments : ∀ p ∈ segments value.toList, IsSegment p :=
    fun p hp => isSegment_of_mem_segments hp
  have hagain : segments (normalPath value).toList = segments value.toList := by
    rw [toList_normalPath, segments_joinSegments hsegments]
  have hnormal : normalPath (normalPath value) = normalPath value := by
    rw [normalPath, hagain, normalPath]
  simp only [relativePath, refuse_bind_eq_ok, Bool.or_eq_false_iff, beq_eq_false_iff_ne,
    decide_eq_false_iff_not, not_lt, List.contains_eq_mem, hagain, hnormal]
  have hcases : (normalPath value).toList ≠ [] ∧ (normalPath value).toList.head? ≠ some '/' ∧
      ['.', '/'].isPrefixOf (normalPath value).toList = false ∧
      contains ['/', '/'] (normalPath value).toList = false := by
    rw [toList_normalPath, joinSegments]
    cases hparts : segments value.toList with
    | nil => exact ⟨by simp, by decide, rfl, rfl⟩
    | cons p ps =>
      rw [hparts] at hsegments
      have hp := hsegments p List.mem_cons_self
      have hhead := head?_intercalate (d := '/') hp.nonempty ps
      rw [if_neg (List.cons_ne_nil p ps)]
      refine ⟨?_, ?_, dotSlash_not_prefix hp ps, contains_slashes_intercalate hsegments⟩
      · intro hnil
        rw [hnil] at hhead
        cases p with
        | nil => exact hp.nonempty rfl
        | cons c p => cases hhead
      · rw [hhead]
        intro hslash
        exact hp.noSlash (List.mem_of_mem_head? (by rw [hslash]; rfl))
  obtain ⟨hne, hhead, hdot, hdouble⟩ := hcases
  refine ⟨⟨?_, hsize⟩, ⟨hslash, hnul⟩, ⟨hhead, hinside⟩, ⟨hdot, hdouble⟩, rfl⟩
  intro hempty
  exact hne (by rw [hempty]; rfl)

/-- A health path that was accepted: visible ASCII without backslashes. -/
theorem healthPath_ok {value : Text} {result : String} (h : healthPath value = .ok result) :
    value = Text.ofString result ∧ healthPath (Text.ofString result) = .ok result ∧
      (∀ c ∈ result.toList, 0x21 ≤ c.toNat ∧ c.toNat ≤ 0x7E) ∧ '\\' ∉ result.toList := by
  have hvalue := h
  simp only [healthPath, refuse_bind_eq_ok, Bool.or_eq_false_iff, List.any_eq_false,
    Bool.or_eq_true, decide_eq_true_eq, not_or, not_lt, List.contains_eq_mem,
    decide_eq_false_iff_not] at h
  obtain ⟨-, -, hvisible, ⟨-, hslash⟩, h⟩ := h
  cases h
  have hscalar : value.all Text.isScalar = true := by
    rw [List.all_eq_true]
    intro c hc
    have := hvisible c hc
    exact Text.isScalar_of_lt (by omega)
  have htext : Text.ofString (String.ofList (value.map Char.ofNat)) = value := by
    rw [Text.ofString, String.toList_ofList, Text.map_toNat_ofNat hscalar]
  refine ⟨htext.symm, by rw [htext]; exact hvalue, ?_, ?_⟩
  · intro c hc
    have hmem : c.toNat ∈ value := by
      rw [← htext]
      exact List.mem_map_of_mem hc
    have := hvisible _ hmem
    omega
  · intro hc
    refine hslash ?_
    rw [← htext]
    exact List.mem_map_of_mem (f := Char.toNat) hc

end Validation
end OpenstackPlatform
