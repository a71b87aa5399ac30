import OpenstackPlatform.Controller.InertJobs
import OpenstackPlatform.Helper.NomadJobs

/-!
# Reading a rendered job

The readers of `nomad_jobs.py` search a job's text for patterns.  Every pattern either stays in one
line or starts with a fixed line, so a rendered job is searched line by line, and all lines but a
few have no match.

* `priorityAt_eq_some`, `routeMarkerAt_eq_some`, `placementAt_eq_some`: what a match is.
* `markersFrom_of_notSuffix`, `mem_markersFrom`: the markers of a text.
* `Ordinary`: a line in which nothing is found.
-/

namespace OpenstackPlatform
namespace Helper

open Library Validation

/-! ## Literals -/

variable {rest : List Char}

theorem afterLiteral_eq_some {literal : String} {text : List Char} :
    afterLiteral literal text = some rest ↔ text = literal.toList ++ rest := by
  rw [afterLiteral]
  constructor
  · intro h
    split at h
    · rename_i hprefix
      obtain ⟨t, rfl⟩ := List.isPrefixOf_iff_prefix.mp hprefix
      rw [List.drop_left] at h
      rw [Option.some.inj h]
    · cases h
  · rintro rfl
    rw [if_pos (List.isPrefixOf_iff_prefix.mpr (List.prefix_append _ _)), List.drop_left]

theorem afterLiteral_append (literal : String) (rest : List Char) :
    afterLiteral literal (literal.toList ++ rest) = some rest :=
  afterLiteral_eq_some.mpr rfl

/-- The characters up to the first one that ends a run. -/
theorem takeWhile_append_cons {p : Char → Bool} {s r : List Char} {d : Char}
    (hs : ∀ c ∈ s, p c = true) (hd : p d = false) : (s ++ d :: r).takeWhile p = s := by
  rw [List.takeWhile_append_of_pos hs, List.takeWhile_cons_of_neg (by simp [hd]), List.append_nil]

/-! ## Matches -/

variable {v : String}

/-- A field of 36 identifier characters, with what closes it. -/
theorem idField_eq_some {close : String} :
    (if (rest.take 36).length == 36 && (rest.take 36).all isIdChar &&
        (afterLiteral close (rest.drop 36)).isSome then
      some (String.ofList (rest.take 36))
    else none) = some v ↔
      v.toList.length = 36 ∧ (∀ c ∈ v.toList, isIdChar c = true) ∧
        ∃ r, rest = v.toList ++ (close.toList ++ r) := by
  constructor
  · intro h
    split at h
    · rename_i hfield
      simp only [Bool.and_eq_true, beq_iff_eq, List.all_eq_true] at hfield
      obtain ⟨⟨hlength, hall⟩, hclose⟩ := hfield
      obtain ⟨r, hr⟩ := Option.isSome_iff_exists.mp hclose
      cases h
      rw [String.toList_ofList]
      refine ⟨hlength, hall, r, ?_⟩
      rw [← afterLiteral_eq_some.mp hr, List.take_append_drop]
    · cases h
  · rintro ⟨hlength, hall, r, rfl⟩
    have htake : (v.toList ++ (close.toList ++ r)).take 36 = v.toList := List.take_left' hlength
    have hdrop : (v.toList ++ (close.toList ++ r)).drop 36 = close.toList ++ r :=
      List.drop_left' hlength
    rw [htake, hdrop, afterLiteral_append, String.ofList_toList, if_pos]
    simp [hlength, List.all_eq_true.mpr hall]

/-- What a route marker is. -/
theorem routeMarkerAt_eq_some {t : List Char} :
    routeMarkerAt t = some v ↔ v.toList.length = 36 ∧ (∀ c ∈ v.toList, isIdChar c = true) ∧
      ∃ r, t = "    platform_route_marker = \"".toList ++ (v.toList ++ ("\"\n".toList ++ r)) := by
  rw [routeMarkerAt]
  constructor
  · intro h
    split at h
    · rename_i rest hrest
      obtain ⟨hlength, hall, r, rfl⟩ := idField_eq_some.mp h
      exact ⟨hlength, hall, r, afterLiteral_eq_some.mp hrest⟩
    · cases h
  · rintro ⟨hlength, hall, r, rfl⟩
    rw [afterLiteral_append]
    exact idField_eq_some.mpr ⟨hlength, hall, r, rfl⟩

/-- The lines that a placement starts with, and the start of the line that it is in. -/
def placementStart : String :=
  "    attribute = \"$\x7bmeta.application_id\x7d\"\n    operator  = \"=\"\n    value     = \""

/-- What a placement is. -/
theorem placementAt_eq_some {t : List Char} :
    placementAt t = some v ↔ v.toList.length = 36 ∧ (∀ c ∈ v.toList, isIdChar c = true) ∧
      ∃ r, t = placementStart.toList ++ (v.toList ++ ("\"".toList ++ r)) := by
  rw [placementAt, placementStart]
  constructor
  · intro h
    split at h
    · rename_i rest hrest
      obtain ⟨hlength, hall, r, rfl⟩ := idField_eq_some.mp h
      exact ⟨hlength, hall, r, afterLiteral_eq_some.mp hrest⟩
    · cases h
  · rintro ⟨hlength, hall, r, rfl⟩
    rw [afterLiteral_append]
    exact idField_eq_some.mpr ⟨hlength, hall, r, rfl⟩

/-- What a route priority is. -/
theorem priorityAt_eq_some {t : List Char} {n : Nat} :
    priorityAt t = some n ↔ ∃ digits r, digits ≠ [] ∧ (∀ c ∈ digits, c.isDigit = true) ∧
      n = decimal digits ∧ t = ".priority=".toList ++ (digits ++ ("\",".toList ++ r)) := by
  rw [priorityAt]
  constructor
  · intro h
    split at h
    · rename_i rest hrest
      simp only at h
      split at h
      · rename_i hdigits
        obtain ⟨hne, hclose⟩ := Bool.and_eq_true_iff.mp hdigits
        obtain ⟨r, hr⟩ := Option.isSome_iff_exists.mp hclose
        refine ⟨rest.takeWhile Char.isDigit, r, by simpa using hne, fun c hc => ?_,
          (Option.some.inj h).symm, ?_⟩
        · exact List.all_eq_true.mp List.all_takeWhile c hc
        · have hwhole := List.prefix_append_drop (List.takeWhile_prefix (l := rest) Char.isDigit)
          rw [← afterLiteral_eq_some.mp hr, ← hwhole]
          exact afterLiteral_eq_some.mp hrest
      · cases h
    · cases h
  · rintro ⟨digits, r, hne, hall, rfl, rfl⟩
    have htake : (digits ++ ("\",".toList ++ r)).takeWhile Char.isDigit = digits :=
      takeWhile_append_cons hall (by decide)
    rw [afterLiteral_append]
    simp only [htake, List.drop_left, afterLiteral_append]
    rw [if_pos]
    simp [hne]

/-! ## Lines -/

theorem lineEnd_notMem_of_idChars {v : List Char} (h : ∀ c ∈ v, isIdChar c = true) : '\n' ∉ v :=
  fun hn => absurd (h _ hn) (by decide)

theorem quote_notMem_of_idChars {v : List Char} (h : ∀ c ∈ v, isIdChar c = true) : '"' ∉ v :=
  fun hn => absurd (h _ hn) (by decide)

/-- What a route marker is, in its line. -/
theorem routeMarkerAt_line {s r : List Char} (hs : '\n' ∉ s) :
    routeMarkerAt (s ++ '\n' :: r) = some v ↔ v.toList.length = 36 ∧
      (∀ c ∈ v.toList, isIdChar c = true) ∧
        s = "    platform_route_marker = ".toList ++ '"' :: (v.toList ++ ['"']) := by
  have hkey : "    platform_route_marker = \"".toList =
      "    platform_route_marker = ".toList ++ ['"'] := rfl
  rw [routeMarkerAt_eq_some]
  refine and_congr_right fun _ => and_congr_right fun hall => ?_
  constructor
  · rintro ⟨r', h⟩
    have hline : '\n' ∉ "    platform_route_marker = ".toList ++ '"' :: (v.toList ++ ['"']) := by
      have := lineEnd_notMem_of_idChars hall
      simp only [List.mem_append, List.mem_cons, List.not_mem_nil, or_false, not_or]
      exact ⟨by decide, by decide, this, by decide⟩
    have hwhole : s ++ '\n' :: r =
        ("    platform_route_marker = ".toList ++ '"' :: (v.toList ++ ['"'])) ++ '\n' :: r' := by
      rw [h, hkey]
      simp
    exact (append_cons_inj hs hline hwhole).1
  · rintro rfl
    refine ⟨r, ?_⟩
    rw [hkey]
    simp

theorem routeMarkerAt_lineLocal : LineLocal routeMarkerAt := by
  intro s r hs
  ext v
  rw [routeMarkerAt_line hs, routeMarkerAt_line hs]

/-- What a route priority is, in its line. -/
theorem priorityAt_line {s r : List Char} (hs : '\n' ∉ s) {n : Nat} :
    priorityAt (s ++ '\n' :: r) = some n ↔ ∃ digits t, digits ≠ [] ∧
      (∀ c ∈ digits, c.isDigit = true) ∧ n = decimal digits ∧
        s = ".priority=".toList ++ (digits ++ '"' :: ',' :: t) := by
  rw [priorityAt_eq_some]
  constructor
  · rintro ⟨digits, t, hne, hall, hn, h⟩
    have hdigits : '\n' ∉ digits := fun hm => absurd (hall _ hm) (by decide)
    have hhead : '\n' ∉ ".priority=".toList ++ (digits ++ ['"', ',']) := by
      simp only [List.mem_append, List.mem_cons, List.not_mem_nil, or_false, not_or]
      exact ⟨by decide, hdigits, by decide, by decide⟩
    have hprefix : ".priority=".toList ++ (digits ++ ['"', ',']) <+: s := by
      have hwhole : ".priority=".toList ++ (digits ++ ['"', ',']) <+: s ++ '\n' :: r := by
        rw [h]
        exact ⟨t, by simp⟩
      obtain hle | hlt := le_or_gt (".priority=".toList ++ (digits ++ ['"', ','])).length s.length
      · exact List.prefix_of_prefix_length_le hwhole (List.prefix_append _ _) hle
      · have hs' : s ++ ['\n'] <+: ".priority=".toList ++ (digits ++ ['"', ',']) := by
          have hline : s ++ ['\n'] <+: s ++ '\n' :: r := ⟨r, by simp⟩
          refine List.prefix_of_prefix_length_le hline hwhole ?_
          rw [List.length_append, List.length_singleton]
          omega
        exact absurd (hs'.subset (List.mem_append_right _ List.mem_cons_self)) hhead
    obtain ⟨t', ht'⟩ := hprefix
    exact ⟨digits, t', hne, hall, hn, by rw [← ht']; simp⟩
  · rintro ⟨digits, t, hne, hall, hn, rfl⟩
    exact ⟨digits, t ++ '\n' :: r, hne, hall, hn, by simp⟩

theorem priorityAt_lineLocal : LineLocal priorityAt := by
  intro s r hs
  ext n
  rw [priorityAt_line hs, priorityAt_line hs]

/-- The first line of a placement. -/
def placementLine : List Char := "    attribute = \"$\x7bmeta.application_id\x7d\"".toList

theorem placementAt_startsWith : StartsWith placementLine placementAt := by
  intro s r hs hne
  have hstart : placementStart.toList =
      placementLine ++ '\n' :: "    operator  = \"=\"\n    value     = \"".toList := rfl
  by_contra hsome
  obtain ⟨v, hv⟩ := Option.ne_none_iff_exists'.mp hsome
  obtain ⟨-, -, r', h⟩ := placementAt_eq_some.mp hv
  rw [hstart, List.append_assoc, List.cons_append] at h
  exact hne (append_cons_inj hs (by decide) h).1

/-- The first line of a marker block. -/
def metaLine : List Char := "  meta \x7b".toList

theorem markerAt_startsWith : StartsWith metaLine markerAt := by
  intro s r hs hne
  have hstart : "  meta \x7b\n".toList = metaLine ++ ['\n'] := rfl
  rw [markerAt]
  cases hrest : afterLiteral "  meta \x7b\n" (s ++ '\n' :: r) with
  | none => rfl
  | some rest =>
    have h := afterLiteral_eq_some.mp hrest
    rw [hstart, List.append_assoc, List.singleton_append] at h
    exact absurd (append_cons_inj hs (by decide) h).1 hne

/-! ## The markers of a text -/

/-- One line of the marker block. -/
theorem settingAt_line {key : String} {valid : String → Bool} (hquote : '"' ∉ v.toList)
    (hline : '\n' ∉ v.toList) (hvalid : valid v = true) :
    settingAt key valid (("    " ++ key ++ " = \"" ++ v ++ "\"\n").toList ++ rest) =
      some (v, rest) := by
  have hsplit : ("    " ++ key ++ " = \"" ++ v ++ "\"\n").toList ++ rest =
      ("    " ++ key).toList ++ (' ' :: ("=".toList ++ (' ' :: ("\"".toList ++
        (v.toList ++ ("\"\n".toList ++ rest)))))) := by
    simp
  have hblank : ∀ {c : Char} (t : List Char), isSpace c = false →
      (' ' :: (c :: t)).dropWhile isSpace = c :: t := by
    intro c t hc
    rw [List.dropWhile_cons_of_pos (by decide), List.dropWhile_cons_of_neg (by simp [hc])]
  have hequal : (' ' :: ("=".toList ++ (' ' :: ("\"".toList ++ (v.toList ++ ("\"\n".toList ++
      rest)))))).dropWhile isSpace = "=".toList ++ (' ' :: ("\"".toList ++ (v.toList ++
        ("\"\n".toList ++ rest)))) := hblank _ (by decide)
  have hopen : (' ' :: ("\"".toList ++ (v.toList ++ ("\"\n".toList ++ rest)))).dropWhile isSpace =
      "\"".toList ++ (v.toList ++ ("\"\n".toList ++ rest)) := hblank _ (by decide)
  have hunquoted : unquoted (v.toList ++ ("\"\n".toList ++ rest)) = v.toList := by
    refine takeWhile_append_cons (d := '"') (fun c hc => ?_) (by decide)
    rw [Bool.and_eq_true, bne_iff_ne, bne_iff_ne]
    exact ⟨fun he => hquote (he ▸ hc), fun he => hline (he ▸ hc)⟩
  rw [settingAt, hsplit, afterLiteral_append]
  simp only [Option.bind_eq_bind, Option.bind_some, hequal, afterLiteral_append, hopen, hunquoted,
    String.ofList_toList, hvalid, if_true, List.drop_left]
  rfl

/-- The line of the route marker in the marker block. -/
theorem afterRouteMarker_line (hlength : v.toList.length = 36)
    (hall : ∀ c ∈ v.toList, isIdChar c = true) :
    afterRouteMarker (("    " ++ "platform_route_marker" ++ " = \"" ++ v ++ "\"\n").toList ++ rest) =
      rest := by
  have hvalid : (v.length == 36 && v.toList.all isIdChar) = true := by
    rw [← String.length_toList, hlength, List.all_eq_true.mpr hall]
    rfl
  have hsetting : settingAt "platform_route_marker" (fun v => v.length == 36 && v.toList.all isIdChar)
      (("    " ++ "platform_route_marker" ++ " = \"" ++ v ++ "\"\n").toList ++ rest) =
        some (v, rest) :=
    settingAt_line (quote_notMem_of_idChars hall) (lineEnd_notMem_of_idChars hall) hvalid
  rw [afterRouteMarker, hsetting]
  rfl

/-- Lines that do not end as the first line of a block have no marker. -/
theorem markersFrom_of_notSuffix (t : List Char) : ∀ {ls : List (List Char)} {before : List Char},
    (∀ l ∈ ls, '\n' ∉ l ∧ ¬ metaLine <:+ l) →
      markersFrom before (joinLines ls ++ t) = markersFrom ((joinLines ls).reverse ++ before) t
  | [], before, _ => rfl
  | l :: ls, before, h => by
    obtain ⟨hl, hmeta⟩ := h l List.mem_cons_self
    have hline : ∀ (s : List Char) (before : List Char), s <:+ l →
        markersFrom before (s ++ '\n' :: (joinLines ls ++ t)) =
          markersFrom ('\n' :: (s.reverse ++ before)) (joinLines ls ++ t) := by
      intro s
      induction s with
      | nil =>
        intro before hs
        have hnone := markerAt_startsWith [] (joinLines ls ++ t) (by simp) (by decide)
        rw [List.nil_append] at hnone ⊢
        rw [markersFrom, hnone]
        rfl
      | cons c s ih =>
        intro before hs
        have hnone := markerAt_startsWith (c :: s) (joinLines ls ++ t)
          (fun hn => hl (hs.subset hn)) (fun he => hmeta (he ▸ hs))
        rw [List.cons_append] at hnone ⊢
        rw [markersFrom, hnone]
        simp only
        rw [ih (c :: before) ((List.suffix_cons c s).trans hs)]
        simp
    rw [joinLines_cons, List.append_assoc, List.cons_append, hline l before (List.suffix_refl l),
      markersFrom_of_notSuffix t fun l' hl' => h l' (List.mem_cons_of_mem _ hl')]
    simp

/-- The marker of a block anywhere in a text is one of its markers. -/
theorem mem_markersFrom {b : List Char} (hb : b ≠ []) {hash image : String} {rest : List Char}
    (h : markerAt b = some (hash, image, rest)) : ∀ (a before : List Char),
    (hash, image, String.ofList (before.reverse ++ a ++ rest)) ∈ markersFrom before (a ++ b)
  | [], before => by
    cases b with
    | nil => exact absurd rfl hb
    | cons c b =>
      rw [List.nil_append, markersFrom, h, List.append_nil]
      exact List.mem_cons_self
  | c :: a, before => by
    have ih := mem_markersFrom hb h a (c :: before)
    rw [List.reverse_cons, List.append_assoc before.reverse, List.singleton_append] at ih
    rw [List.cons_append, markersFrom]
    split
    · exact List.mem_cons_of_mem _ ih
    · exact ih

end Helper
namespace Controller

open Library Library.Hcl Validation Helper

/-! ## Ordinary lines -/

/-- A line in which the readers find nothing. -/
structure Ordinary (l : List Char) : Prop where
  marker : lineMatches routeMarkerAt l = []
  priority : lineMatches priorityAt l = []
  placement : ¬ placementLine <:+ l
  block : ¬ metaLine <:+ l

/-- The lines of a list are ordinary. -/
def AllOrdinary (ls : List Line) : Prop := ∀ l ∈ ls, Ordinary l.text

theorem AllOrdinary.append {ls ls' : List Line} (h : AllOrdinary ls) (h' : AllOrdinary ls') :
    AllOrdinary (ls ++ ls') := List.forall_mem_append.mpr ⟨h, h'⟩

theorem AllOrdinary.cons {l : Line} {ls : List Line} (h : Ordinary l.text)
    (h' : AllOrdinary ls) : AllOrdinary (l :: ls) := List.forall_mem_cons.mpr ⟨h, h'⟩

theorem AllOrdinary.nil : AllOrdinary [] := fun _ h => absurd h List.not_mem_nil

/-- A line without values, as the readers see it. -/
def isOrdinary (l : List Char) : Bool :=
  (lineMatches routeMarkerAt l).isEmpty && (lineMatches priorityAt l).isEmpty &&
    !placementLine.isSuffixOf l && !metaLine.isSuffixOf l

theorem ordinary_of_check {l : List Char} (h : isOrdinary l = true) : Ordinary l := by
  simp only [isOrdinary, Bool.and_eq_true, Bool.not_eq_true', List.isEmpty_iff] at h
  refine ⟨h.1.1.1, h.1.1.2, fun hs => ?_, fun hs => ?_⟩
  · cases h.1.2.symm.trans (List.isSuffixOf_iff_suffix.mpr hs)
  · cases h.2.symm.trans (List.isSuffixOf_iff_suffix.mpr hs)

theorem allOrdinary_fixed {lines : List String}
    (h : (lines.all fun s => isOrdinary s.toList) = true) : AllOrdinary (fixed lines) := by
  intro l hl
  obtain ⟨s, hs, rfl⟩ := List.mem_map.mp hl
  rw [text_lit]
  exact ordinary_of_check (List.all_eq_true.mp h s hs)

/-! ## Lines without a priority -/

def isQuote (c : Char) : Bool := c == '"'

def isComma (c : Char) : Bool := c == ','

variable {x y : List Char}

/-- A priority ends in a digit, a quote and a comma. -/
theorem priority_of_noPair (hline : '\n' ∉ x ++ y) (hx : noPair Char.isDigit isQuote x = true)
    (hy : noPair isQuote isComma y = true) : lineMatches priorityAt (x ++ y) = [] := by
  refine lineMatches_eq_nil fun s hs => ?_
  by_contra hsome
  obtain ⟨n, hn⟩ := Option.ne_none_iff_exists'.mp hsome
  obtain ⟨digits, t, hne, hall, -, rfl⟩ :=
    (priorityAt_line fun hm => hline (hs.subset hm)).mp hn
  obtain ⟨u, hu⟩ := hs
  obtain ⟨init, d, rfl⟩ : ∃ init d, digits = init ++ [d] :=
    ⟨digits.dropLast, digits.getLast hne, (List.dropLast_append_getLast hne).symm⟩
  have hdigit : d.isDigit = true := hall d (by simp)
  have hsplit : (u ++ ".priority=".toList ++ init ++ [d]) ++ '"' :: ',' :: t = x ++ y := by
    rw [← hu]
    simp
  obtain ⟨a, rfl, ha⟩ | ⟨c, hc, rfl⟩ := List.append_eq_append_iff.mp hsplit
  · cases a with
    | nil =>
      rw [List.nil_append] at ha
      rw [← ha] at hy
      cases not_pair_of_noPair (s := []) hy
    | cons e a =>
      obtain ⟨rfl, -⟩ := List.cons.inj ha
      rw [List.append_assoc, List.singleton_append] at hx
      have := not_pair_of_noPair hx
      rw [hdigit] at this
      cases this
  · cases not_pair_of_noPair hy

variable {a : List Char}

/-- A line in which a text without quotes stands between two others. -/
theorem priority_between {b : List Char} (hline : '\n' ∉ a ++ (x ++ b))
    (ha : noPair Char.isDigit isQuote a = true) (hx : '"' ∉ x)
    (hb : noPair isQuote isComma b = true ∧ ∀ d ∈ b.head?, isComma d = false) :
    lineMatches priorityAt (a ++ (x ++ b)) = [] := by
  refine priority_of_noPair hline ha (noPair_append (noPair_of_left fun c hc => ?_) hb.1 hb.2)
  rw [isQuote, beq_eq_false_iff_ne]
  rintro rfl
  exact hx hc

/-! ## Kinds of lines -/

/-- The key of the route marker's line. -/
def routeMarkerKey : List Char := "    platform_route_marker = ".toList

/-- The key of the placement's first line. -/
def attributeKey : List Char := "    attribute = ".toList

/-- The start of a line that sets a quoted value, other than the route marker and the placement. -/
def isAssignment (a : List Char) : Bool :=
  a.getLast? == some '"' && !a.contains '\n' && !routeMarkerKey.isSuffixOf a.dropLast &&
    !attributeKey.isSuffixOf a.dropLast && noPair Char.isDigit isQuote a

/-- No suffix of a line is a route marker when the key before its last quotes is another one. -/
theorem marker_of_key {p q : List Char} (hline : '\n' ∉ p ++ '"' :: (q ++ ['"'])) (hq : '"' ∉ q)
    (hkey : ¬ routeMarkerKey <:+ p) :
    lineMatches routeMarkerAt (p ++ '"' :: (q ++ ['"'])) = [] := by
  refine lineMatches_eq_nil fun s hs => ?_
  by_contra hsome
  obtain ⟨v, hv⟩ := Option.ne_none_iff_exists'.mp hsome
  obtain ⟨-, hall, rfl⟩ := (routeMarkerAt_line fun hm => hline (hs.subset hm)).mp hv
  exact hkey (suffix_quoted hq (quote_notMem_of_idChars hall) hs).1

/-- No suffix of a line is a route marker when the line does not end in a quote. -/
theorem marker_of_last {l : List Char} (hline : '\n' ∉ l) (hlast : l.getLast? ≠ some '"') :
    lineMatches routeMarkerAt l = [] := by
  refine lineMatches_eq_nil fun s hs => ?_
  by_contra hsome
  obtain ⟨v, hv⟩ := Option.ne_none_iff_exists'.mp hsome
  obtain ⟨-, -, rfl⟩ := (routeMarkerAt_line fun hm => hline (hs.subset hm)).mp hv
  obtain ⟨u, rfl⟩ := hs
  have hwhole : u ++ ("    platform_route_marker = ".toList ++ '"' :: (v.toList ++ ['"'])) =
      (u ++ ("    platform_route_marker = ".toList ++ '"' :: v.toList)) ++ ['"'] := by simp
  rw [hwhole, List.getLast?_concat] at hlast
  exact hlast rfl

theorem placementLine_eq :
    placementLine = attributeKey ++ '"' :: ("$\x7bmeta.application_id\x7d".toList ++ ['"']) := rfl

/-- A line that sets a quoted value. -/
theorem ordinary_assignment (ha : isAssignment a = true) (hline : '\n' ∉ x) (hx : '"' ∉ x) :
    Ordinary (a ++ (x ++ ['"'])) := by
  simp only [isAssignment, Bool.and_eq_true, Bool.not_eq_true', beq_iff_eq] at ha
  obtain ⟨⟨⟨⟨hlast, haline⟩, hmarker⟩, hattribute⟩, hpair⟩ := ha
  obtain ⟨p, rfl⟩ : ∃ p, a = p ++ ['"'] := ⟨_, (List.dropLast_append_getLast? _ hlast).symm⟩
  rw [List.dropLast_concat] at hmarker hattribute
  have hwhole : (p ++ ['"']) ++ (x ++ ['"']) = p ++ '"' :: (x ++ ['"']) := by simp
  have hend : '\n' ∉ (p ++ ['"']) ++ (x ++ ['"']) := by
    have : '\n' ∉ p ++ ['"'] := by simpa using haline
    simp only [List.mem_append, List.mem_cons, List.not_mem_nil, or_false, not_or] at this ⊢
    exact ⟨this, hline, by decide⟩
  constructor
  · rw [hwhole] at hend ⊢
    refine marker_of_key hend hx fun hs => ?_
    cases hmarker.symm.trans (List.isSuffixOf_iff_suffix.mpr hs)
  · exact priority_between hend hpair hx (by decide)
  · rw [hwhole, placementLine_eq]
    intro hs
    have := (suffix_quoted hx (by decide) hs).1
    cases hattribute.symm.trans (List.isSuffixOf_iff_suffix.mpr this)
  · refine not_suffix_of_last (by decide) ?_
    rw [← List.append_assoc, List.getLast?_concat]
    decide

/-- A line that ends neither in a quote nor in a brace. -/
theorem ordinary_of_last {l : List Char} (hline : '\n' ∉ l)
    (hlast : ∃ c, l.getLast? = some c ∧ c ≠ '"' ∧ c ≠ '\x7b')
    (hpriority : lineMatches priorityAt l = []) : Ordinary l := by
  obtain ⟨c, hc, hquote, hbrace⟩ := hlast
  have hquote' : some '"' ≠ some c := fun h => hquote (Option.some.inj h).symm
  refine ⟨marker_of_last hline ?_, hpriority, not_suffix_of_last (by decide) ?_,
    not_suffix_of_last (by decide) ?_⟩
  · rw [hc]
    exact hquote'.symm
  · rw [hc]
    exact hquote'
  · rw [hc]
    exact fun h => hbrace (Option.some.inj h).symm

/-! ## Tags -/

/-- The line of a tag. -/
def tagText (v : List Char) : List Char := "        \"".toList ++ (v ++ ['"', ','])

variable {v : List Char}

/-- A priority in a tag is the end of the tag. -/
theorem priority_in_tag {u digits t : List Char} (hv : '"' ∉ v)
    (hdigits : ∀ c ∈ digits, c.isDigit = true)
    (h : u ++ (".priority=".toList ++ (digits ++ '"' :: ',' :: t)) = tagText v) :
    ∃ w, u = "        \"".toList ++ w ∧ v = w ++ (".priority=".toList ++ digits) ∧ t = [] := by
  have htag : tagText v = "        ".toList ++ '"' :: (v ++ '"' :: [',']) := rfl
  have hquote : '"' ∉ digits := fun hm => absurd (hdigits _ hm) (by decide)
  rw [htag] at h
  by_cases hu : '"' ∈ u
  · obtain ⟨u₁, w, rfl, hu₁⟩ := List.eq_append_cons_of_mem hu
    rw [List.append_assoc, List.cons_append] at h
    obtain ⟨rfl, hrest⟩ := append_cons_inj hu₁ (by decide) h
    have hw : '"' ∉ w := by
      intro hw
      obtain ⟨w₁, w₂, rfl, hw₁⟩ := List.eq_append_cons_of_mem hw
      rw [List.append_assoc, List.cons_append] at hrest
      obtain ⟨-, hshort⟩ := append_cons_inj hw₁ hv hrest
      have := congrArg List.length hshort
      simp only [List.length_append, List.length_cons, List.length_nil] at this
      omega
    have hwhole : (w ++ (".priority=".toList ++ digits)) ++ '"' :: (',' :: t) =
        v ++ '"' :: [','] := by
      rw [← hrest]
      simp
    obtain ⟨hv', ht⟩ := append_cons_inj (by
      simp only [List.mem_append, not_or]
      exact ⟨hw, by decide, hquote⟩) hv hwhole
    exact ⟨w, rfl, hv'.symm, (List.cons.inj ht).2⟩
  · have hwhole : (u ++ (".priority=".toList ++ digits)) ++ '"' :: (',' :: t) =
        "        ".toList ++ '"' :: (v ++ '"' :: [',']) := by
      rw [← h]
      simp
    obtain ⟨hblank, -⟩ := append_cons_inj (by
      simp only [List.mem_append, not_or]
      exact ⟨hu, by decide, hquote⟩) (by decide) hwhole
    have hdot : '.' ∈ "        ".toList := by
      rw [← hblank]
      simp
    exact absurd hdot (by decide)

/-- What stands after the last equals sign, and what stands before it. -/
theorem last_equals {b : List Char} (hx : '=' ∉ x) (hy : '=' ∉ y)
    (h : a ++ '=' :: x = b ++ '=' :: y) : a = b ∧ x = y := by
  have hreverse := congrArg List.reverse h
  simp only [List.reverse_append, List.reverse_cons, List.append_assoc,
    List.singleton_append] at hreverse
  obtain ⟨hxy, hab⟩ := append_cons_inj (by simpa using hx) (by simpa using hy) hreverse
  exact ⟨List.reverse_injective hab, List.reverse_injective hxy⟩

theorem priorityKey_eq : ".priority=".toList = ".priority".toList ++ ['='] := rfl

theorem tagText_eq (v : List Char) :
    tagText v = ("        \"".toList ++ (v ++ ['"'])) ++ [','] := by
  unfold tagText
  rw [List.append_assoc, List.append_assoc, List.singleton_append]

theorem lineEnd_notMem_tag (hline : '\n' ∉ v) : '\n' ∉ tagText v := by
  unfold tagText
  rw [List.mem_append, List.mem_append, not_or, not_or]
  exact ⟨by decide, hline, by decide⟩

theorem tag_ordinary_of_priority (hline : '\n' ∉ v) (h : lineMatches priorityAt (tagText v) = []) :
    Ordinary (tagText v) := by
  have hlast : (tagText v).getLast? = some ',' := by rw [tagText_eq, List.getLast?_concat]
  exact ordinary_of_last (lineEnd_notMem_tag hline) ⟨',', hlast, by decide, by decide⟩ h

/-- A tag that sets something else. -/
theorem tag_ordinary {n : List Char} (hv : v = y ++ '=' :: n) (hline : '\n' ∉ v) (hquote : '"' ∉ v)
    (hn : '=' ∉ n) (hy : ¬ ".priority".toList <:+ y) : Ordinary (tagText v) := by
  have hend := lineEnd_notMem_tag hline
  refine tag_ordinary_of_priority hline (lineMatches_eq_nil fun s hs => ?_)
  by_contra hsome
  obtain ⟨k, hk⟩ := Option.ne_none_iff_exists'.mp hsome
  obtain ⟨digits, t, -, hall, -, rfl⟩ := (priorityAt_line fun hm => hend (hs.subset hm)).mp hk
  obtain ⟨u, hu⟩ := hs
  obtain ⟨w, -, hw, -⟩ := priority_in_tag hquote hall hu
  have hdigits : '=' ∉ digits := fun hm => absurd (hall _ hm) (by decide)
  rw [priorityKey_eq, List.append_assoc, List.singleton_append, ← List.append_assoc, hv] at hw
  obtain ⟨rfl, -⟩ := last_equals hn hdigits hw
  exact hy (List.suffix_append _ _)

/-- What a tag sets, and what it sets it to, have neither quotes nor line ends. -/
structure TagParts (y n : List Char) : Prop where
  line : '\n' ∉ y ∧ '\n' ∉ n
  quote : '"' ∉ y ∧ '"' ∉ n
  equals : '=' ∉ n
  key : ¬ ".priority".toList <:+ y

theorem TagParts.ordinary {n : List Char} (h : TagParts y n) :
    Ordinary (tagText (y ++ '=' :: n)) := by
  refine tag_ordinary rfl ?_ ?_ h.equals h.key
  · simp only [List.mem_append, List.mem_cons, not_or]
    exact ⟨h.line.1, by decide, h.line.2⟩
  · simp only [List.mem_append, List.mem_cons, not_or]
    exact ⟨h.quote.1, by decide, h.quote.2⟩

/-- The fixed end of a tag's key is another one than a priority's. -/
def isOtherKey (b : List Char) : Bool :=
  !b.isSuffixOf ".priority".toList && !".priority".toList.isSuffixOf b && !b.contains '\n' &&
    !b.contains '"'

/-- A fixed part of a tag. -/
def isTagPart (a : List Char) : Bool := !a.contains '\n' && !a.contains '"' && !a.contains '='

theorem isTagPart_iff : isTagPart a = true ↔ ('\n' ∉ a ∧ '"' ∉ a) ∧ '=' ∉ a := by
  simp [isTagPart]

theorem tagParts_of_check {b n : List Char} (ha : isTagPart a = true) (hx : '\n' ∉ x ∧ '"' ∉ x)
    (hb : isOtherKey b = true) (hn : ('\n' ∉ n ∧ '"' ∉ n) ∧ '=' ∉ n) :
    TagParts (a ++ (x ++ b)) n := by
  obtain ⟨⟨ha, ha'⟩, -⟩ := isTagPart_iff.mp ha
  simp only [isOtherKey, Bool.and_eq_true, Bool.not_eq_true', List.contains_eq_mem,
    decide_eq_false_iff_not] at hb
  obtain ⟨⟨⟨hkey, hkey'⟩, hb⟩, hb'⟩ := hb
  refine ⟨⟨?_, hn.1.1⟩, ⟨?_, hn.1.2⟩, hn.2, ?_⟩
  · simp only [List.mem_append, not_or]
    exact ⟨ha, hx.1, hb⟩
  · simp only [List.mem_append, not_or]
    exact ⟨ha', hx.2, hb'⟩
  · rw [← List.append_assoc]
    refine not_suffix_of_end (fun hs => ?_) fun hs => ?_
    · cases hkey.symm.trans (List.isSuffixOf_iff_suffix.mpr hs)
    · cases hkey'.symm.trans (List.isSuffixOf_iff_suffix.mpr hs)

/-- A tag that sets a priority. -/
theorem tag_priority {w digits : List Char} (hline : '\n' ∉ w) (hquote : '"' ∉ w)
    (hne : digits ≠ []) (hall : ∀ c ∈ digits, c.isDigit = true) :
    lineMatches priorityAt (tagText (w ++ (".priority=".toList ++ digits))) =
      [Helper.decimal digits] := by
  have hnot : ∀ d, d.isDigit = false → d ∉ digits := fun d hd hm =>
    absurd ((hall d hm).symm.trans hd) (by decide)
  have hv : '"' ∉ w ++ (".priority=".toList ++ digits) := by
    simp only [List.mem_append, not_or]
    exact ⟨hquote, by decide, hnot _ (by decide)⟩
  have hend : '\n' ∉ tagText (w ++ (".priority=".toList ++ digits)) := by
    refine lineEnd_notMem_tag ?_
    simp only [List.mem_append, not_or]
    exact ⟨hline, by decide, hnot _ (by decide)⟩
  have hsuffix : ".priority=".toList ++ (digits ++ '"' :: [',']) <:+
      tagText (w ++ (".priority=".toList ++ digits)) := by
    refine ⟨"        \"".toList ++ w, ?_⟩
    unfold tagText
    simp only [List.append_assoc]
  refine filterMap_tails_unique hsuffix ?_ fun s hs hne' => ?_
  · exact (priorityAt_line fun hm => hend (hsuffix.subset hm)).mpr
      ⟨digits, [], hne, hall, rfl, rfl⟩
  · by_contra hsome
    obtain ⟨k, hk⟩ := Option.ne_none_iff_exists'.mp hsome
    obtain ⟨digits', t, -, hall', -, rfl⟩ := (priorityAt_line fun hm => hend (hs.subset hm)).mp hk
    obtain ⟨u, hu⟩ := hs
    obtain ⟨w', -, hw', rfl⟩ := priority_in_tag hv hall' hu
    have hnot' : '=' ∉ digits' := fun hm => absurd (hall' _ hm) (by decide)
    rw [priorityKey_eq, List.append_assoc, List.singleton_append, List.append_assoc,
      List.singleton_append, ← List.append_assoc, ← List.append_assoc] at hw'
    obtain ⟨-, rfl⟩ := last_equals (hnot _ (by decide)) hnot' hw'
    exact hne' rfl

/-! ## The lines of a job -/

/-- No text of a job that is put between quotes has a quote. -/
structure QuoteFree (job : Job) : Prop where
  imagePin : '"' ∉ job.frame.imagePin.toList
  healthPath : '"' ∉ job.values.healthPath.toList

theorem text_three (p q r : Piece) : Line.text [p, q, r] = p.text ++ (q.text ++ r.text) := by
  simp [Line.text]

/-- A line that sets a quoted value. -/
theorem ordinary_quoted {a : String} {x : Piece} (ha : isAssignment a.toList = true)
    (hline : '\n' ∉ x.text) (hx : '"' ∉ x.text) : Ordinary (Line.text [lit a, x, lit "\""]) := by
  rw [text_three]
  exact ordinary_assignment ha hline hx

/-- A line with a plain text between two fixed ones, that ends neither in a quote nor in a brace. -/
theorem ordinary_between {a b : String} {x : Piece} (hx : '"' ∉ x.text) (hline : '\n' ∉ x.text)
    (ha : noPair Char.isDigit isQuote a.toList = true ∧ '\n' ∉ a.toList)
    (hb : noPair isQuote isComma b.toList = true ∧ (∀ d ∈ b.toList.head?, isComma d = false) ∧
      '\n' ∉ b.toList)
    (hlast : ∃ c, b.toList.getLast? = some c ∧ c ≠ '"' ∧ c ≠ '\x7b') :
    Ordinary (Line.text [lit a, x, lit b]) := by
  have hend : '\n' ∉ a.toList ++ (x.text ++ b.toList) := by
    simp only [List.mem_append, not_or]
    exact ⟨ha.2, hline, hb.2.2⟩
  rw [text_three]
  refine ordinary_of_last hend ?_ (priority_between hend ha.1 hx ⟨hb.1, hb.2.1⟩)
  obtain ⟨c, hc, hne⟩ := hlast
  refine ⟨c, ?_, hne⟩
  show (a.toList ++ (x.text ++ b.toList)).getLast? = some c
  rw [List.getLast?_append, List.getLast?_append, hc]
  rfl

/-- A line that ends in a word. -/
theorem ordinary_word {a : String} {w : List Char} (x : Piece) (htext : x.text = w) (hne : w ≠ [])
    (hw : ∀ c ∈ w, isWordChar c = true)
    (ha : noPair Char.isDigit isQuote a.toList = true ∧ '\n' ∉ a.toList) :
    Ordinary (Line.text [lit a, x]) := by
  have hplain := plainText_of_word hne hw
  have hwhole : Line.text [lit a, x] = a.toList ++ (w ++ []) := by
    rw [← htext]
    simp [Line.text, Piece.text, lit]
  have hend : '\n' ∉ a.toList ++ (w ++ []) := by
    rw [List.append_nil, List.mem_append, not_or]
    exact ⟨ha.2, hplain.newline⟩
  have hlast := hw _ (List.getLast_mem hne)
  rw [hwhole]
  refine ordinary_of_last hend ⟨w.getLast hne, ?_, ?_, ?_⟩
    (priority_between hend ha.1 hplain.quote (by decide))
  · rw [List.append_nil, List.getLast?_append, List.getLast?_eq_some_getLast hne]
    rfl
  · intro he
    rw [he] at hlast
    cases hlast
  · intro he
    rw [he] at hlast
    cases hlast

variable {job : Job}

theorem head_ordinary (h : PlainJob job) : Ordinary job.head.text := by
  have hplain := h.jobId.plainText
  have htext : job.head.text = ("job \"".toList ++ job.values.jobId.toList) ++ "\" \x7b".toList := by
    rw [Job.head, text_three, List.append_assoc]
    rfl
  have hwhole : job.head.text = "job \"".toList ++ (job.values.jobId.toList ++ "\" \x7b".toList) := by
    rw [htext, List.append_assoc]
  have hend : '\n' ∉ "job \"".toList ++ (job.values.jobId.toList ++ "\" \x7b".toList) := by
    simp only [List.mem_append, not_or]
    exact ⟨by decide, hplain.newline, by decide⟩
  have hlast : job.head.text.getLast? = some '\x7b' := by
    rw [htext, List.getLast?_append]
    rfl
  constructor
  · refine marker_of_last (hwhole ▸ hend) ?_
    rw [hlast]
    decide
  · rw [hwhole]
    exact priority_between hend (by decide) hplain.quote (by decide)
  · refine not_suffix_of_last (by decide) ?_
    rw [hlast]
    decide
  · rw [htext]
    exact not_suffix_of_end (by decide) (by decide)

/-- The lines between the first one and the placement. -/
def Job.beforeLines (job : Job) : List Line :=
  [[lit "  region      = \"", lit job.frame.platform.region, lit "\""],
    [lit "  datacenters = [\"", lit job.frame.platform.datacenter, lit "\"]"]] ++
  fixed ["  type        = \"service\"", "", "  constraint \x7b"]

/-- The lines from the value of the placement to the first router's tags. -/
def Job.middleLines (job : Job) : List Line :=
  fixed [
    "  \x7d",
    "",
    "  update \x7b",
    "    max_parallel      = 1",
    "    min_healthy_time  = \"10s\"",
    s!"    healthy_deadline  = \"{healthyDeadlineSeconds / 60}m\"",
    s!"    progress_deadline = \"{progressDeadlineSeconds / 60}m\"",
    "    auto_revert       = false",
    "    canary            = 0",
    "  \x7d",
    ""] ++
  job.networkLines ++
  [[lit "        \"", lit job.frame.platform.platformNamespace, lit ".platform=true\","]] ++
  fixed ["        \"traefik.enable=true\","]

/-- The lines after the last router's tags. -/
def Job.afterLines (job : Job) : List Line :=
  serviceTags job.frame job.values.jobId ++ job.checkLines ++ job.taskLines ++
    job.environmentLines ++ [dataLine] ++ job.templateLines ++ [endLine] ++ job.resourceLines

/-- The lines of the placement. -/
def Job.constraintLines (job : Job) : List Line :=
  fixed ["    attribute = \"$\x7bmeta.application_id\x7d\"", "    operator  = \"=\""] ++
  [[lit "    value     = \"", lit job.frame.placement, lit "\""]]

/-- The lines of a job around its placement and its routers. -/
theorem restLines_eq (job : Job) :
    job.restLines = job.beforeLines ++ job.constraintLines ++ job.middleLines ++
      job.routers.flatMap (routerTags job.values.jobId) ++ job.afterLines := by
  have hplacement : job.placementLines = job.beforeLines ++ (job.constraintLines ++ fixed [
      "  \x7d", "", "  update \x7b", "    max_parallel      = 1",
      "    min_healthy_time  = \"10s\"",
      s!"    healthy_deadline  = \"{healthyDeadlineSeconds / 60}m\"",
      s!"    progress_deadline = \"{progressDeadlineSeconds / 60}m\"",
      "    auto_revert       = false", "    canary            = 0", "  \x7d", ""]) := rfl
  rw [Job.restLines, Job.bodyLines, hplacement, Job.tagLines, Job.middleLines, Job.afterLines]
  simp only [List.append_assoc]

/-- A plain text is between quotes what it is. -/
theorem IsPlain.quoted {s : String} (h : IsPlain s) : '\n' ∉ s.toList ∧ '"' ∉ s.toList :=
  ⟨h.plainText.newline, h.plainText.quote⟩

/-- The value of a tag that is plain. -/
theorem IsPlain.tagValue {s : String} (h : IsPlain s) :
    ('\n' ∉ s.toList ∧ '"' ∉ s.toList) ∧ '=' ∉ s.toList :=
  ⟨h.quoted, h.ne (by decide)⟩

/-- A tag that sets one thing to a fixed text. -/
theorem tag_fixed {a b : String} {x : Piece} (hx : '\n' ∉ x.text ∧ '"' ∉ x.text)
    (a' b' n : String) (ha : a.toList = "        \"".toList ++ a'.toList)
    (hb : b.toList = b'.toList ++ '=' :: (n.toList ++ ['"', ',']))
    (hcheck : (isTagPart a'.toList && isOtherKey b'.toList && isTagPart n.toList) = true) :
    Ordinary (Line.text [lit a, x, lit b]) := by
  simp only [Bool.and_eq_true] at hcheck
  have hparts := tagParts_of_check hcheck.1.1 hx hcheck.1.2 (isTagPart_iff.mp hcheck.2)
  have htext : Line.text [lit a, x, lit b] =
      tagText ((a'.toList ++ (x.text ++ b'.toList)) ++ '=' :: n.toList) := by
    rw [text_three]
    show a.toList ++ (x.text ++ b.toList) = _
    unfold tagText
    rw [ha, hb]
    simp only [List.append_assoc, List.cons_append]
  rw [htext]
  exact hparts.ordinary

/-- A tag that sets one thing to a text with a value. -/
theorem tag_value {a b c : String} {x z : Piece} (hx : '\n' ∉ x.text ∧ '"' ∉ x.text)
    (hz : ('\n' ∉ z.text ∧ '"' ∉ z.text) ∧ '=' ∉ z.text) (a' b' n m : String)
    (ha : a.toList = "        \"".toList ++ a'.toList)
    (hb : b.toList = b'.toList ++ '=' :: n.toList) (hc : c.toList = m.toList ++ ['"', ','])
    (hcheck : (isTagPart a'.toList && isOtherKey b'.toList && isTagPart n.toList &&
      isTagPart m.toList) = true) :
    Ordinary (Line.text [lit a, x, lit b, z, lit c]) := by
  simp only [Bool.and_eq_true] at hcheck
  obtain ⟨⟨⟨ha', hb'⟩, hn⟩, hm⟩ := hcheck
  obtain ⟨⟨hn₁, hn₂⟩, hn₃⟩ := isTagPart_iff.mp hn
  obtain ⟨⟨hm₁, hm₂⟩, hm₃⟩ := isTagPart_iff.mp hm
  have hparts : TagParts (a'.toList ++ (x.text ++ b'.toList)) (n.toList ++ (z.text ++ m.toList)) := by
    refine tagParts_of_check ha' hx hb' ?_
    simp only [List.mem_append, not_or]
    exact ⟨⟨⟨hn₁, hz.1.1, hm₁⟩, hn₂, hz.1.2, hm₂⟩, hn₃, hz.2, hm₃⟩
  have htext : Line.text [lit a, x, lit b, z, lit c] =
      tagText ((a'.toList ++ (x.text ++ b'.toList)) ++ '=' :: (n.toList ++ (z.text ++ m.toList))) := by
    have hfive : Line.text [lit a, x, lit b, z, lit c] =
        a.toList ++ (x.text ++ (b.toList ++ (z.text ++ c.toList))) := by
      simp [Line.text, lit, Piece.text]
    rw [hfive]
    unfold tagText
    rw [ha, hb, hc]
    simp only [List.append_assoc, List.cons_append]
  rw [htext]
  exact hparts.ordinary

theorem allOrdinary_before (job : Job) : AllOrdinary job.beforeLines := by
  obtain ⟨hregion, hregion'⟩ := (isPlain_of_isPlatformName job.frame.platform.region_ok).quoted
  obtain ⟨hdatacenter, hdatacenter'⟩ :=
    (isPlain_of_isPlatformName job.frame.platform.datacenter_ok).quoted
  refine .append (.cons ?_ (.cons ?_ .nil)) (allOrdinary_fixed (by rfl))
  · exact ordinary_quoted (x := lit _) (by rfl) hregion hregion'
  · exact ordinary_between (x := lit _) hdatacenter' hdatacenter (by decide) (by decide)
      ⟨']', by decide⟩

theorem value_ordinary (h : PlainJob job) :
    Ordinary (Line.text [lit "    value     = \"", lit job.frame.placement, lit "\""]) :=
  ordinary_quoted (x := lit _) (by rfl) h.placement.quoted.1 h.placement.quoted.2

theorem name_ordinary (h : PlainJob job) :
    Ordinary (Line.text [lit "      name         = \"app-", val job.values.jobId, lit "\""]) := by
  have hsplit : "      name         = \"app-".toList =
      "      name         = \"".toList ++ "app-".toList := by rfl
  have htext : Line.text [lit "      name         = \"app-", val job.values.jobId, lit "\""] =
      "      name         = \"".toList ++ (("app-".toList ++ job.values.jobId.toList) ++ ['"']) := by
    rw [text_three]
    show "      name         = \"app-".toList ++ (job.values.jobId.toList ++ ['"']) = _
    rw [hsplit, List.append_assoc, List.append_assoc]
  rw [htext]
  refine ordinary_assignment (by rfl) ?_ ?_
  · rw [List.mem_append, not_or]
    exact ⟨by decide, h.jobId.quoted.1⟩
  · rw [List.mem_append, not_or]
    exact ⟨by decide, h.jobId.quoted.2⟩

theorem allOrdinary_middle (h : PlainJob job) : AllOrdinary job.middleLines := by
  obtain ⟨hne, hword⟩ := word_intText job.values.port
  have hnetwork : AllOrdinary job.networkLines := by
    refine .append (.append (.append (.append (allOrdinary_fixed (by rfl)) ?_)
      (allOrdinary_fixed (by rfl))) ?_) (allOrdinary_fixed (by rfl))
    · exact .cons (ordinary_word _ rfl hne hword (by decide)) .nil
    · exact .cons (name_ordinary h) .nil
  have hnamespace := isPlain_of_isNamespace job.frame.platform.namespace_ok
  refine .append (.append (.append (allOrdinary_fixed (by rfl)) hnetwork) (.cons ?_ .nil))
    (allOrdinary_fixed (by rfl))
  exact tag_fixed (x := lit _) hnamespace.quoted "" ".platform" "true" (by rfl)
    (by rfl) (by rfl)

theorem allOrdinary_serviceTags {f : JobFrame} {jobId : String} (hjob : IsPlain jobId)
    (hmarker : IsPlain f.markerId) : AllOrdinary (serviceTags f jobId) := by
  refine .cons ?_ (.cons ?_ (.cons ?_ (.cons ?_ .nil)))
  · exact tag_fixed (x := val _) hjob.quoted "traefik.http.services." ".loadbalancer.server.port"
      "8080" (by rfl) (by rfl) (by rfl)
  · exact tag_fixed (x := val _) hjob.quoted "traefik.http.middlewares."
      "-headers.headers.contenttypenosniff" "true" (by rfl) (by rfl)
      (by rfl)
  · exact tag_fixed (x := val _) hjob.quoted "traefik.http.middlewares."
      "-headers.headers.referrerpolicy" "no-referrer" (by rfl) (by rfl)
      (by rfl)
  · exact tag_value (x := val _) (z := lit _) hjob.quoted hmarker.tagValue
      "traefik.http.middlewares."
      "-headers.headers.customresponseheaders.X-Platform-Deployment" "" "" (by rfl)
      (by rfl) (by rfl) (by rfl)

/-- The line of a router's priority. -/
def priorityLine (r : Router) : Line :=
  [lit "        \"traefik.http.routers.", val r.name, lit ".priority=", .lit (intText r.priority),
    lit "\","]

/-- The tags of a router but for its priority are ordinary. -/
theorem routerTags_cases {jobId : String} {r : Router} (hjob : IsPlain jobId)
    (hname : IsPlain r.name) (hhost : IsPlain r.host) {l : Line} (hl : l ∈ routerTags jobId r) :
    l = priorityLine r ∨ Ordinary l.text := by
  simp only [routerTags, List.mem_cons, List.not_mem_nil, or_false] at hl
  obtain rfl | rfl | rfl | rfl | rfl := hl
  · exact .inr (tag_fixed (x := val _) hname.quoted "traefik.http.routers." ".entrypoints" "web"
      (by rfl) (by rfl) (by rfl))
  · exact .inr (tag_value (x := val _) (z := val _) hname.quoted hhost.tagValue
      "traefik.http.routers." ".rule" "Host(\x60" "\x60)" (by rfl) (by rfl)
      (by rfl) (by rfl))
  · exact .inl rfl
  · exact .inr (tag_value (x := val _) (z := val _) hname.quoted hjob.tagValue
      "traefik.http.routers." ".service" "" "" (by rfl) (by rfl)
      (by rfl) (by rfl))
  · exact .inr (tag_value (x := val _) (z := val _) hname.quoted hjob.tagValue
      "traefik.http.routers." ".middlewares" "" "-headers" (by rfl) (by rfl)
      (by rfl) (by rfl))

/-- The digits of a number that is not negative, and their value. -/
theorem intText_digits {n : Int} (h : 0 ≤ n) :
    (∀ c ∈ intText n, c.isDigit = true) ∧ Helper.decimal (intText n) = n.toNat := by
  obtain ⟨k, rfl⟩ := Int.eq_ofNat_of_zero_le h
  have hdigit : ∀ d ∈ JsonText.digits k, 48 ≤ d ∧ d < 58 := by
    intro d hd
    have hd := JsonText.isDigit_of_mem_digits hd
    rw [JsonText.isDigit, Bool.and_eq_true, decide_eq_true_eq, decide_eq_true_eq] at hd
    omega
  have hchar : ∀ d < 58, 48 ≤ d → (Char.ofNat d).isDigit = true ∧ (Char.ofNat d).toNat = d := by
    decide
  have hdecimal : ∀ (l : List Nat) (a : Nat), (∀ d ∈ l, 48 ≤ d ∧ d < 58) →
      (l.map Char.ofNat).foldl (fun n c => 10 * n + (c.toNat - '0'.toNat)) a =
        l.foldl (fun n c => 10 * n + (c - 48)) a := by
    intro l
    induction l with
    | nil => exact fun _ _ => rfl
    | cons d l ih =>
      intro a hl
      obtain ⟨hle, hlt⟩ := hl d List.mem_cons_self
      rw [List.map_cons, List.foldl_cons, List.foldl_cons, (hchar d hlt hle).2]
      exact ih _ fun e he => hl e (List.mem_cons_of_mem _ he)
  constructor
  · intro c hc
    obtain ⟨d, hd, rfl⟩ := List.mem_map.mp hc
    exact (hchar d (hdigit d hd).2 (hdigit d hd).1).1
  · show ((JsonText.digits k).map Char.ofNat).foldl _ 0 = k
    rw [hdecimal _ 0 hdigit]
    exact JsonText.decimal_digits k

/-- The line of a priority has this priority and nothing else. -/
theorem priorityLine_matches {r : Router} (hname : IsPlain r.name) (hpriority : 0 ≤ r.priority) :
    lineMatches priorityAt (priorityLine r).text = [r.priority.toNat] ∧
      lineMatches routeMarkerAt (priorityLine r).text = [] ∧
      ¬ placementLine <:+ (priorityLine r).text ∧ ¬ metaLine <:+ (priorityLine r).text := by
  obtain ⟨hdigits, hvalue⟩ := intText_digits hpriority
  obtain ⟨hne, -⟩ := word_intText r.priority
  have hstart : "        \"traefik.http.routers.".toList =
      "        \"".toList ++ "traefik.http.routers.".toList := by rfl
  have htext : (priorityLine r).text = tagText (("traefik.http.routers.".toList ++ r.name.toList) ++
      (".priority=".toList ++ intText r.priority)) := by
    have hfive : (priorityLine r).text = "        \"traefik.http.routers.".toList ++
        (r.name.toList ++ (".priority=".toList ++ (intText r.priority ++ ['"', ',']))) := by
      simp [priorityLine, Line.text, lit, val, Piece.text]
    rw [hfive]
    unfold tagText
    rw [hstart]
    simp only [List.append_assoc]
  have hline : '\n' ∉ "traefik.http.routers.".toList ++ r.name.toList := by
    rw [List.mem_append, not_or]
    exact ⟨by decide, hname.quoted.1⟩
  have hquote : '"' ∉ "traefik.http.routers.".toList ++ r.name.toList := by
    rw [List.mem_append, not_or]
    exact ⟨by decide, hname.quoted.2⟩
  have hend : '\n' ∉ tagText (("traefik.http.routers.".toList ++ r.name.toList) ++
      (".priority=".toList ++ intText r.priority)) := by
    refine lineEnd_notMem_tag ?_
    have hvalue : '\n' ∉ ".priority=".toList ++ intText r.priority := by
      rw [List.mem_append, not_or]
      exact ⟨by decide, fun hn => absurd (hdigits _ hn) (by decide)⟩
    rw [List.mem_append, not_or]
    exact ⟨hline, hvalue⟩
  have hlast : (tagText (("traefik.http.routers.".toList ++ r.name.toList) ++
      (".priority=".toList ++ intText r.priority))).getLast? = some ',' := by
    rw [tagText_eq, List.getLast?_concat]
  rw [htext]
  refine ⟨?_, marker_of_last hend ?_, not_suffix_of_last (by decide) ?_,
    not_suffix_of_last (by decide) ?_⟩
  · rw [tag_priority hline hquote hne hdigits, hvalue]
  · rw [hlast]
    decide
  · rw [hlast]
    decide
  · rw [hlast]
    decide

/-- In a JSON string a quote follows a backslash. -/
theorem noPair_escape (t : Text) :
    noPair Char.isDigit isQuote ((t.flatMap JsonText.escape).map Char.ofNat) = true ∧
      ∀ d ∈ ((t.flatMap JsonText.escape).map Char.ofNat).head?, isQuote d = false := by
  have hblock : ∀ c : Nat,
      noPair Char.isDigit isQuote ((JsonText.escape c).map Char.ofNat) = true ∧
        ∀ d ∈ ((JsonText.escape c).map Char.ofNat).head?, isQuote d = false := by
    intro c
    have hchar : ∀ n, 32 ≤ n → n < 127 → n ≠ 34 → isQuote (Char.ofNat n) = false := by
      intro n hle hlt hne
      have hvalid : (Char.ofNat n).toNat = n :=
        Text.ofNat_toNat_of_isScalar (Text.isScalar_of_lt (by omega))
      rw [isQuote, beq_eq_false_iff_ne]
      intro he
      rw [he] at hvalid
      exact hne hvalid.symm
    have hhex : ∀ n, n < 16 → isQuote (Char.ofNat (JsonText.hexDigit n)) = false := by decide
    have hunit : ∀ u, ∀ d ∈ (JsonText.escapeUnit u).map Char.ofNat, isQuote d = false := by
      intro u d hd
      simp only [JsonText.escapeUnit, List.map_cons, List.map_nil, List.mem_cons, List.not_mem_nil,
        or_false] at hd
      obtain rfl | rfl | rfl | rfl | rfl | rfl := hd
      · decide
      · decide
      all_goals exact hhex _ (Nat.mod_lt _ (by decide))
    rw [JsonText.escape]
    split_ifs with h34 h92 h10 h13 h9 h12 h8 hprint hsmall
    · decide
    · decide
    · decide
    · decide
    · decide
    · decide
    · decide
    · refine ⟨rfl, fun d hd => ?_⟩
      cases hd
      exact hchar c hprint.1 hprint.2 h34
    · exact ⟨noPair_of_right (hunit c), fun d hd => hunit c d (List.mem_of_mem_head? hd)⟩
    · have hboth : ∀ d ∈ (JsonText.escapeUnit (0xD800 + (c - 0x10000) / 0x400) ++
          JsonText.escapeUnit (0xDC00 + (c - 0x10000) % 0x400)).map Char.ofNat,
          isQuote d = false := by
        intro d hd
        rw [List.map_append] at hd
        exact (List.mem_append.mp hd).elim (hunit _ d) (hunit _ d)
      exact ⟨noPair_of_right hboth, fun d hd => hboth d (List.mem_of_mem_head? hd)⟩
  induction t with
  | nil => exact ⟨rfl, by simp⟩
  | cons c t ih =>
    rw [List.flatMap_cons, List.map_append]
    refine ⟨noPair_append (hblock c).1 ih.1 ih.2, fun d hd => ?_⟩
    rw [List.head?_append] at hd
    cases hhead : ((JsonText.escape c).map Char.ofNat).head? with
    | none =>
      rw [hhead, Option.none_or] at hd
      exact ih.2 d hd
    | some e =>
      rw [hhead, Option.some_or] at hd
      exact (hblock c).2 d (hhead ▸ hd)

theorem extraHosts_ordinary (s : String) :
    Ordinary (Line.text [lit "        extra_hosts     = [", .lit (jsonText s), lit "]"]) := by
  have hline := (extraHosts_reads s).oneLine
  have hopen : "        extra_hosts     = [\"".toList =
      "        extra_hosts     = [".toList ++ ['"'] := by rfl
  have htext : Line.text [lit "        extra_hosts     = [", .lit (jsonText s), lit "]"] =
      ("        extra_hosts     = [\"".toList ++
        ((Text.ofString s).flatMap JsonText.escape).map Char.ofNat) ++ ['"', ']'] := by
    rw [text_three, hopen]
    show "        extra_hosts     = [".toList ++ (jsonText s ++ [']']) = _
    rw [jsonText, JsonText.dumpString, List.cons_append, List.map_cons, List.map_append]
    simp only [List.append_assoc, List.cons_append, List.nil_append]
    rfl
  have hlast : (Line.text [lit "        extra_hosts     = [", .lit (jsonText s), lit "]"]).getLast? =
      some ']' := by
    rw [htext, List.getLast?_append]
    rfl
  refine ordinary_of_last hline ⟨']', hlast, by decide, by decide⟩ ?_
  rw [htext] at hline ⊢
  obtain ⟨hpair, hhead⟩ := noPair_escape (Text.ofString s)
  exact priority_of_noPair hline (noPair_append (by rfl) hpair hhead) (by decide)

example : isQuote '"' = true := by decide +kernel

/-- The line of the volume's source. -/
theorem source_ordinary (platform : PlatformConfig) :
    Ordinary (Line.text [lit "      source    = \"", lit platform.platformNamespace,
      lit "-internal-ca\""]) := by
  obtain ⟨hline, hquote⟩ := (isPlain_of_isNamespace platform.namespace_ok).quoted
  have hclose : "-internal-ca\"".toList = "-internal-ca".toList ++ ['"'] := by rfl
  have htext : Line.text [lit "      source    = \"", lit platform.platformNamespace,
      lit "-internal-ca\""] = "      source    = \"".toList ++
        ((platform.platformNamespace.toList ++ "-internal-ca".toList) ++ ['"']) := by
    rw [text_three]
    show "      source    = \"".toList ++ (platform.platformNamespace.toList ++
      "-internal-ca\"".toList) = _
    rw [hclose, List.append_assoc]
  rw [htext]
  refine ordinary_assignment (by rfl) ?_ ?_
  · rw [List.mem_append, not_or]
    exact ⟨hline, by decide⟩
  · rw [List.mem_append, not_or]
    exact ⟨hquote, by decide⟩

/-- The line of the health path. -/
theorem path_ordinary (h : PlainJob job) (hquote : QuoteFree job) :
    Ordinary (Line.text [lit "        path     = \"", val job.values.healthPath, lit "\""]) :=
  ordinary_quoted (by rfl) h.healthPath hquote.healthPath

theorem allOrdinary_check (h : PlainJob job) (hquote : QuoteFree job) :
    AllOrdinary job.checkLines :=
  .append (allOrdinary_fixed (by rfl)) (.cons (path_ordinary h hquote) .nil)

theorem allOrdinary_task (h : PlainJob job) (hquote : QuoteFree job) :
    AllOrdinary job.taskLines := by
  have hforce : AllOrdinary
      [[lit "        force_pull      = ", lit (if job.frame.forcePull then "true" else "false")]] := by
    cases job.frame.forcePull with
    | true => exact .cons (ordinary_word (w := "true".toList) _ rfl (by decide) (by decide)
        ⟨by rfl, by simp⟩) .nil
    | false => exact .cons (ordinary_word (w := "false".toList) _ rfl (by decide) (by decide)
        ⟨by rfl, by simp⟩) .nil
  refine .append (.append (.append (.append (.append (.append
    (allOrdinary_fixed (by rfl)) ?_) (allOrdinary_fixed (by rfl))) ?_)
    (allOrdinary_fixed (by rfl))) hforce) (allOrdinary_fixed (by rfl))
  · exact .cons (source_ordinary job.frame.platform) .nil
  · exact .cons (ordinary_quoted (x := lit _) (by rfl) h.imagePin hquote.imagePin)
      (.cons (extraHosts_ordinary _) .nil)

/-- The start of a line that sets a variable. -/
theorem isAssignment_envKey {key : String} (h : isEnvKey key = true) :
    isAssignment ("        ".toList ++ (key.toList ++ " = \"".toList)) = true := by
  obtain ⟨hne, hchars⟩ := isEnvKey_chars h
  have hplain := isPlain_of_isEnvKey h
  have hdrop : ("        ".toList ++ (key.toList ++ " = \"".toList)).dropLast =
      ("        ".toList ++ key.toList) ++ " = ".toList := by
    have hclose : " = \"".toList = " = ".toList ++ ['"'] := rfl
    rw [hclose, ← List.append_assoc, ← List.append_assoc, List.dropLast_concat]
  have hlast : ∀ (s : List Char) (c : Char), (c.isUpper || c.isDigit || c == '_') = false →
      (s ++ [c] ++ " = ".toList).isSuffixOf (("        ".toList ++ key.toList) ++ " = ".toList) =
        false := by
    intro s c hc
    rw [Bool.eq_false_iff]
    intro hs
    obtain ⟨t, ht⟩ := List.isSuffixOf_iff_suffix.mp hs
    rw [← List.append_assoc] at ht
    have hkey := List.append_cancel_right ht
    have hmem := congrArg List.getLast? hkey
    rw [← List.append_assoc, List.getLast?_concat, List.getLast?_append,
      List.getLast?_eq_some_getLast hne, Option.some_or] at hmem
    have := hchars c (Option.some.inj hmem ▸ List.getLast_mem hne)
    rw [hc] at this
    cases this
  simp only [isAssignment, Bool.and_eq_true, Bool.not_eq_true', beq_iff_eq]
  refine ⟨⟨⟨⟨?_, ?_⟩, ?_⟩, ?_⟩, ?_⟩
  · rw [List.getLast?_append, List.getLast?_append]
    rfl
  · rw [List.contains_eq_mem, decide_eq_false_iff_not]
    simp only [List.mem_append, not_or]
    exact ⟨by decide, hplain.quoted.1, by decide⟩
  · rw [hdrop]
    exact hlast "    platform_route_marke".toList 'r' (by decide)
  · rw [hdrop]
    exact hlast "    attribut".toList 'e' (by decide)
  · refine noPair_append (by decide) (noPair_append (noPair_of_right fun c hc => ?_) (by decide)
      (by decide)) fun d hd => ?_
    · rw [isQuote, beq_eq_false_iff_ne]
      rintro rfl
      exact hplain.quoted.2 hc
    · have hmem : d ∈ key.toList := by
        rw [List.head?_append, List.head?_eq_some_head hne, Option.some_or] at hd
        exact Option.some.inj hd ▸ List.head_mem hne
      rw [isQuote, beq_eq_false_iff_ne]
      rintro rfl
      exact hplain.quoted.2 hmem

theorem allOrdinary_environment (h : PlainJob job) : AllOrdinary job.environmentLines := by
  refine .append ?_ (allOrdinary_fixed (by rfl))
  intro l hl
  obtain ⟨e, he, rfl⟩ := List.mem_map.mp hl
  obtain ⟨hkey, hvalue⟩ := h.platformEnvironment e he
  obtain ⟨hline, hquote⟩ := hvalue.quoted
  have hjson : jsonText e.2 = '"' :: e.2.toList ++ ['"'] :=
    jsonText_of_plain hvalue.printable hquote (hvalue.ne (by decide))
  have htext : Line.text [lit "        ", val e.1, lit " = ", .json e.2] =
      ("        ".toList ++ (e.1.toList ++ " = \"".toList)) ++ (e.2.toList ++ ['"']) := by
    have hfour : Line.text [lit "        ", val e.1, lit " = ", .json e.2] =
        "        ".toList ++ (e.1.toList ++ (" = ".toList ++ jsonText e.2)) := by
      simp [Line.text, lit, val, Piece.text]
    have hopen : " = \"".toList = " = ".toList ++ ['"'] := rfl
    rw [hfour, hjson, hopen]
    simp only [List.append_assoc, List.cons_append, List.nil_append]
  rw [htext]
  exact ordinary_assignment (isAssignment_envKey hkey) hline hquote

/-- A piece in which no comma stands after a quote. -/
def Piece.Spaced (p : Piece) : Prop :=
  noPair isQuote isComma p.text = true ∧ ∀ d ∈ p.text.head?, isComma d = false

instance : DecidablePred Piece.Spaced := fun p =>
  inferInstanceAs (Decidable (_ ∧ ∀ d ∈ p.text.head?, isComma d = false))

theorem spaced_val {s : String} (h : IsPlain s) : Piece.Spaced (val s) := by
  refine ⟨noPair_of_left fun c hc => ?_, fun d hd => ?_⟩
  · rw [isQuote, beq_eq_false_iff_ne]
    rintro rfl
    exact h.quoted.2 hc
  · rw [isComma, beq_eq_false_iff_ne]
    rintro rfl
    exact h.ne (d := ',') (by decide) (List.mem_of_mem_head? hd)

theorem noPair_text : ∀ {l : Line}, (∀ p ∈ l, Piece.Spaced p) →
    noPair isQuote isComma l.text = true ∧ ∀ d ∈ l.text.head?, isComma d = false
  | [], _ => ⟨rfl, fun d hd => absurd hd (by simp [Line.text])⟩
  | p :: l, h => by
    obtain ⟨hp, hhead⟩ := h p List.mem_cons_self
    obtain ⟨ih, ihhead⟩ := noPair_text fun q hq => h q (List.mem_cons_of_mem _ hq)
    rw [Line.text] at ih ihhead
    rw [Line.text, List.flatMap_cons]
    refine ⟨noPair_append hp ih ihhead, fun d hd => ?_⟩
    rw [List.head?_append] at hd
    cases hnone : p.text.head? with
    | none =>
      rw [hnone, Option.none_or] at hd
      exact ihhead d hd
    | some e =>
      rw [hnone, Option.some_or] at hd
      exact hhead d (hnone ▸ hd)

/-- A line of the template that ends in a brace. -/
theorem ordinary_template {l : Line} {b : String} (hline : '\n' ∉ Line.text (l ++ [lit b]))
    (hl : ∀ p ∈ l, Piece.Spaced p) (hb : Piece.Spaced (lit b))
    (hlast : b.toList.getLast? = some '\x7d') : Ordinary (Line.text (l ++ [lit b])) := by
  have hspaced : ∀ p ∈ l ++ [lit b], Piece.Spaced p :=
    List.forall_mem_append.mpr ⟨hl, List.forall_mem_cons.mpr ⟨hb, fun _ h => absurd h List.not_mem_nil⟩⟩
  refine ordinary_of_last hline ⟨'\x7d', ?_, by decide, by decide⟩ ?_
  · have htext : Line.text (l ++ [lit b]) = Line.text l ++ b.toList := by
      rw [Line.text, List.flatMap_append, ← Line.text]
      exact congrArg _ (text_lit b)
    rw [htext, List.getLast?_append, hlast, Option.some_or]
  · exact priority_of_noPair (x := []) hline rfl (noPair_text hspaced).1

theorem spaced_comparisons : ∀ {keys : List String}, (∀ k ∈ keys, IsPlain k) →
    ∀ p ∈ comparisons keys, Piece.Spaced p
  | [], _, p, hp => absurd hp List.not_mem_nil
  | [key], h, p, hp => by
    simp only [comparisons, List.mem_cons, List.not_mem_nil, or_false] at hp
    obtain rfl | rfl | rfl := hp
    · decide
    · exact spaced_val (h key List.mem_cons_self)
    · decide
  | key :: key' :: keys, h, p, hp => by
    rw [comparisons, List.mem_append] at hp
    obtain hp | hp := hp
    · simp only [List.mem_cons, List.not_mem_nil, or_false] at hp
      obtain rfl | rfl | rfl := hp
      · decide
      · exact spaced_val (h key List.mem_cons_self)
      · decide
    · exact spaced_comparisons (fun k hk => h k (List.mem_cons_of_mem _ hk)) p hp
    · simp

theorem allOrdinary_aliases {aliases : List (String × String)}
    (h : ∀ a ∈ aliases, IsPlain a.1 ∧ isEnvKey a.2 = true) :
    AllOrdinary (aliasLines aliases) := by
  have hquiet := quiet_aliasLines h
  intro l hl
  have hline := (hquiet l hl).oneLine
  rw [aliasLines] at hl
  split at hl
  · rw [List.mem_singleton.mp hl]
    exact ordinary_of_check (by decide)
  · obtain ⟨a, ha, hl⟩ := List.mem_flatMap.mp hl
    obtain ⟨hkey, htarget⟩ := h a ha
    simp only [List.mem_cons, List.not_mem_nil, or_false] at hl
    obtain rfl | rfl := hl
    · refine ordinary_template (l := [lit _, val a.1]) hline (fun p hp => ?_) (by decide) (by decide)
      simp only [List.mem_cons, List.not_mem_nil, or_false] at hp
      obtain rfl | rfl := hp
      · decide
      · exact spaced_val hkey
    · refine ordinary_template (l := [val a.2]) hline (fun p hp => ?_) (by decide) (by decide)
      rw [List.mem_singleton.mp hp]
      exact spaced_val (isPlain_of_isEnvKey htarget)

theorem allOrdinary_template (h : PlainJob job) : AllOrdinary job.templateLines := by
  have hquiet := quiet_template h
  rw [Job.templateLines] at hquiet ⊢
  refine .append (.append (.append (.cons ?_ (.cons ?_ .nil)) (allOrdinary_fixed (by rfl)))
    (allOrdinary_aliases h.bindingAliases)) (allOrdinary_fixed (by rfl))
  · refine ordinary_template (l := [lit _, val job.values.variablePath]) (hquiet _ (by simp)).oneLine
      (fun p hp => ?_) (by decide) (by decide)
    simp only [List.mem_cons, List.not_mem_nil, or_false] at hp
    obtain rfl | rfl := hp
    · decide
    · exact spaced_val h.variablePath
  · refine ordinary_template (hquiet _ (by simp)).oneLine (fun p hp => ?_) (by decide) (by decide)
    obtain rfl | hp := List.mem_cons.mp hp
    · decide
    · exact spaced_comparisons h.excludedKeys p hp

theorem allOrdinary_resource (job : Job) : AllOrdinary job.resourceLines := by
  obtain ⟨hcpu, hcpuWord⟩ := word_intText job.frame.cpuMhz
  obtain ⟨hmemory, hmemoryWord⟩ := word_intText job.frame.memoryMib
  refine .append (.append (allOrdinary_fixed (by rfl)) ?_)
    (allOrdinary_fixed (by rfl))
  exact .cons (ordinary_word _ rfl hcpu hcpuWord ⟨by rfl, by simp⟩)
    (.cons (ordinary_word _ rfl hmemory hmemoryWord ⟨by rfl, by simp⟩) .nil)

/-- The lines after the last router's tags are ordinary. -/
theorem allOrdinary_after (h : PlainJob job) (hquote : QuoteFree job) :
    AllOrdinary job.afterLines := by
  have hdata : AllOrdinary [dataLine] := .cons (ordinary_of_check (by rfl)) .nil
  have hend : AllOrdinary [endLine] := .cons (ordinary_of_check (by rfl)) .nil
  exact ((((((((allOrdinary_serviceTags h.jobId h.markerId).append (allOrdinary_check h hquote)).append
    (allOrdinary_task h hquote)).append (allOrdinary_environment h)).append hdata).append
      (allOrdinary_template h)).append hend).append (allOrdinary_resource job))

/-! ## The marker block -/

/-- The line of the route marker. -/
def routeMarkerLine (markerId : String) : Line :=
  [lit s!"    {nomadRouteMarkerKey} = \"", lit markerId, lit "\""]

/-- The lines of the marker block between its first line and the route marker. -/
def Job.imageLines (job : Job) (identity : String) : List Line :=
  [[lit s!"    {nomadCandidateJobShaKey} = \"", val identity, lit "\""],
    [lit s!"    {nomadCandidateImageKey} = \"", lit job.frame.imagePin, lit "\""]]

/-- The lines of the marker block after the route marker. -/
def Job.commitLines (job : Job) : List Line :=
  [[lit s!"    {nomadSourceCommitKey} = \"", lit job.frame.checkedSource, lit "\""],
    [lit s!"    {nomadRecipeShaKey} = \"", lit job.frame.checkedRecipe, lit "\""],
    [lit "  \x7d"],
    []]

theorem markerLines_eq (job : Job) (identity : String) :
    job.markerLines identity = [lit "  meta \x7b"] :: (job.imageLines identity ++
      routeMarkerLine job.frame.markerId :: job.commitLines) := rfl

theorem allOrdinary_image (h : PlainJob job) (hquote : QuoteFree job) {identity : String}
    (hidentity : IsPlain identity) : AllOrdinary (job.imageLines identity) :=
  .cons (ordinary_quoted (x := val _) (by rfl) hidentity.quoted.1 hidentity.quoted.2)
    (.cons (ordinary_quoted (x := lit _) (by rfl) h.imagePin hquote.imagePin) .nil)

theorem allOrdinary_commit (h : PlainJob job) : AllOrdinary job.commitLines :=
  .cons (ordinary_quoted (x := lit _) (by rfl) h.checkedSource.quoted.1
      h.checkedSource.quoted.2)
    (.cons (ordinary_quoted (x := lit _) (by rfl) h.checkedRecipe.quoted.1
        h.checkedRecipe.quoted.2)
      (.cons (ordinary_of_check (by decide)) (.cons (ordinary_of_check (by decide)) .nil)))

example : Helper.isIdChar '-' = true := by decide +kernel

end Controller
end OpenstackPlatform
