import Mathlib.Algebra.Order.Ring.Nat
import Mathlib.Data.List.Induction
import OpenstackPlatform.Library.Text
import OpenstackPlatform.StorageInstances.IpAddress

/-!
# Address texts read back

The text that `str` makes of an address is read back as that address (`parse_chars`), whether its
longest run of zeros is at the start, in the middle or at the end, and with or without a scope ID.
So a text that was accepted once names one address, and two texts that `str` made are equal only
when the addresses are.
-/

namespace OpenstackPlatform
namespace StorageInstances
namespace IpAddress

open Library

/-- The addresses that a text can name. -/
inductive Valid : IpAddress → Prop where
  | v4 {octets} : octets.length = 4 → (∀ n ∈ octets, n ≤ 255) → Valid (.v4 octets)
  | v6 {hextets scopeId} : hextets.length = 8 → (∀ n ∈ hextets, n < 65536) →
      (∀ s, scopeId = some s → s ≠ [] ∧ '%' ∉ s ∧ '/' ∉ s) → Valid (.v6 hextets scopeId)

/-! ## Numbers -/

theorem number_append (base : Nat) (digit : Char → Nat) (text : List Char) (c : Char) :
    number base digit (text ++ [c]) = number base digit text * base + digit c := by
  simp only [number, List.foldl_append, List.foldl_cons, List.foldl_nil]

/-- The digits of a number spell it, when a digit of the base is read as what it stands for. -/
theorem number_toDigits {base : Nat} {digit : Char → Nat} (hbase : 1 < base)
    (hdigit : ∀ d, d < base → digit d.digitChar = d) (n : Nat) :
    number base digit (Nat.toDigits base n) = n := by
  induction n using Nat.strong_induction_on with
  | _ n ih =>
    rw [Nat.toDigits_eq_if hbase]
    split
    next hlt => simp only [number, List.foldl_cons, List.foldl_nil, hdigit n hlt,
      Nat.zero_mul, Nat.zero_add]
    next hge =>
      have hdiv : n / base < n := Nat.div_lt_self (by omega) hbase
      rw [number_append, ih _ hdiv, hdigit _ (Nat.mod_lt _ (by omega))]
      exact Nat.div_add_mod' n base

/-- A property of every digit of the base holds of the digits of a number. -/
theorem forall_mem_toDigits {base : Nat} {p : Char → Prop} (hbase : 1 < base)
    (hp : ∀ d, d < base → p d.digitChar) (n : Nat) : ∀ c ∈ Nat.toDigits base n, p c := by
  induction n using Nat.strong_induction_on with
  | _ n ih =>
    rw [Nat.toDigits_eq_if hbase]
    split
    next hlt =>
      intro c hc
      rw [List.mem_singleton.mp hc]
      exact hp n hlt
    next hge =>
      have hdiv : n / base < n := Nat.div_lt_self (by omega) hbase
      intro c hc
      rcases List.mem_append.mp hc with hc | hc
      · exact ih _ hdiv c hc
      · rw [List.mem_singleton.mp hc]
        exact hp _ (Nat.mod_lt _ (by omega))

theorem hexDigit_digitChar : ∀ d, d < 16 → hexDigit d.digitChar = d := by decide

theorem isHex_hexText (n : Nat) : ∀ c ∈ hexText n, isHex c = true :=
  forall_mem_toDigits (by decide) (by decide) n

theorem hexText_ne_nil (n : Nat) : hexText n ≠ [] := Nat.toDigits_ne_nil

variable {n : Nat}

theorem length_hexText (h : n < 65536) : (hexText n).length ≤ 4 :=
  (Nat.length_toDigits_le_iff (by decide) (by decide)).mpr h

theorem parseHextet_hexText (h : n < 65536) : parseHextet (hexText n) = some n := by
  have hall : (hexText n).all isHex = true := List.all_eq_true.mpr (isHex_hexText n)
  have hlength := length_hexText h
  unfold parseHextet
  rw [if_neg]
  · exact congrArg some (number_toDigits (by decide) hexDigit_digitChar n)
  · simp only [hall, hexText_ne_nil, List.isEmpty_iff, Bool.not_true, Bool.or_false,
      Bool.or_eq_true, decide_eq_true_eq, not_or]
    exact ⟨by simp, by omega⟩

theorem parseOctet_decimalText (h : n ≤ 255) : parseOctet (decimalText n) = some n := by
  have key : ∀ m : Fin 256, parseOctet (decimalText m) = some m.val := by decide +kernel
  exact key ⟨n, by omega⟩

theorem isDigit_decimalText (n : Nat) : ∀ c ∈ decimalText n, c.isDigit = true :=
  forall_mem_toDigits (by decide) (by decide) n

variable {text : List Char} {c : Char}

/-- A hexadecimal digit is no separator. -/
theorem not_mem_of_isHex (h : ∀ d ∈ text, isHex d = true) (hc : isHex c = false) : c ∉ text := by
  intro hmem
  rw [h c hmem] at hc
  cases hc

theorem not_mem_of_isDigit (h : ∀ d ∈ text, d.isDigit = true) (hc : c.isDigit = false) :
    c ∉ text := by
  intro hmem
  rw [h c hmem] at hc
  cases hc

/-! ## Dotted quads -/

variable {parts : List (List Char)}

/-- The parts that a text was joined from, when the separator is in none of them. -/
theorem splitOn_join (hparts : parts ≠ []) (hc : ∀ part ∈ parts, c ∉ part) :
    (List.intercalate [c] parts).splitOn c = parts :=
  List.splitOn_intercalate c hc hparts

theorem parseV4_join {octets : List Nat} (hlength : octets.length = 4)
    (hoctets : ∀ n ∈ octets, n ≤ 255) :
    parseV4 (List.intercalate ['.'] (octets.map decimalText)) = some octets := by
  have hsplit : (List.intercalate ['.'] (octets.map decimalText)).splitOn '.' =
      octets.map decimalText := by
    refine splitOn_join ?_ ?_
    · rw [Ne, List.map_eq_nil_iff]
      rintro rfl
      cases hlength
    · intro part hpart
      obtain ⟨n, -, rfl⟩ := List.mem_map.mp hpart
      exact not_mem_of_isDigit (isDigit_decimalText n) rfl
  unfold parseV4
  rw [hsplit, List.length_map, hlength, if_neg (by simp)]
  exact mapM_map_of_inverse fun n hn => parseOctet_decimalText (hoctets n hn)

/-- An octet is digits only, and fits a byte. -/
theorem of_parseOctet (h : parseOctet text = some n) :
    (∀ c ∈ text, c.isDigit = true) ∧ n ≤ 255 := by
  unfold parseOctet at h
  split at h
  · cases h
  next hshape =>
    split at h
    · cases h
    · split at h
      · cases h
      next hle =>
        cases h
        simp only [Bool.or_eq_true, not_or, Bool.not_eq_true', Bool.not_eq_false] at hshape
        exact ⟨List.all_eq_true.mp hshape.1.2, by omega⟩

/-- Only digits and dots are in the text of a dotted quad. -/
theorem mem_of_parseV4 {octets : List Nat} (h : parseV4 text = some octets) :
    ∀ c ∈ text, c.isDigit = true ∨ c = '.' := by
  unfold parseV4 at h
  split at h
  · cases h
  · intro c hc
    have hjoin : List.intercalate ['.'] (text.splitOn '.') = text := List.intercalate_splitOn '.'
    rw [← hjoin] at hc
    rcases mem_intercalate hc with rfl | ⟨part, hpart, hmem⟩
    · exact .inr rfl
    · obtain ⟨n, -, hn⟩ := (of_mapM h).2.1 part hpart
      exact .inl ((of_parseOctet hn).1 c hmem)

theorem valid_of_parseV4 {octets : List Nat} (h : parseV4 text = some octets) :
    Valid (.v4 octets) := by
  unfold parseV4 at h
  split at h
  · cases h
  next hfour =>
    obtain ⟨hlength, -, hright⟩ := of_mapM h
    refine .v4 (by omega) fun n hn => ?_
    obtain ⟨part, -, hpart⟩ := hright n hn
    exact (of_parseOctet hpart).2

/-- A text with a colon is no dotted quad. -/
theorem parseV4_eq_none (h : ':' ∈ text) : parseV4 text = none := by
  cases hparse : parseV4 text with
  | none => rfl
  | some octets =>
    rcases mem_of_parseV4 hparse ':' h with hdigit | heq
    · cases hdigit
    · cases heq

/-! ## Compressed hextets -/

/-- The text of some hextets around a `::`. -/
def around (high low : List Nat) : List (List Char) :=
  (if high = [] then [[]] else []) ++ high.map hexText ++ [[]] ++ low.map hexText ++
    if low = [] then [[]] else []

/-- What the loop of `_compress_hextets` knows after some of the hextets: its best run and the run
that is open are zeros. -/
structure ZeroRun.Sound (hextets : List Nat) (index : Nat) (run : ZeroRun) : Prop where
  best : run.bestStart + run.bestLength ≤ index
  zeros : ∀ k, run.bestStart ≤ k → k < run.bestStart + run.bestLength → hextets[k]? = some 0
  reach : run.length ≠ 0 → run.start + run.length = index
  opened : ∀ k, run.start ≤ k → k < run.start + run.length → hextets[k]? = some 0

theorem ZeroRun.Sound.next {hextets : List Nat} {index : Nat} {run : ZeroRun} {hextet : Nat}
    (h : run.Sound hextets index) (hindex : hextets[index]? = some hextet) :
    (run.next index hextet).Sound hextets (index + 1) := by
  have hbest := h.best
  unfold ZeroRun.next
  by_cases hzero : hextet = 0
  · subst hzero
    -- The open run, with this zero.
    have hopened : ∀ k, (if run.length = 0 then index else run.start) ≤ k →
        k < (if run.length = 0 then index else run.start) + (run.length + 1) →
          hextets[k]? = some 0 := by
      intro k hle hlt
      by_cases hempty : run.length = 0
      · rw [if_pos hempty] at hle hlt
        obtain rfl : k = index := by omega
        exact hindex
      · rw [if_neg hempty] at hle hlt
        have hreach := h.reach hempty
        by_cases hk : k = index
        · rw [hk]
          exact hindex
        · exact h.opened k hle (by omega)
    have hreach : (if run.length = 0 then index else run.start) + (run.length + 1) = index + 1 := by
      split
      next hempty => omega
      next hempty =>
        have := h.reach hempty
        omega
    rw [if_pos rfl]
    by_cases hlonger : run.bestLength < run.length + 1
    · simp only [if_pos hlonger]
      exact ⟨hreach.le, hopened, fun _ => hreach, hopened⟩
    · simp only [if_neg hlonger]
      exact ⟨hbest.trans (Nat.le_succ index), h.zeros, fun _ => hreach, hopened⟩
  · rw [if_neg hzero]
    refine ⟨hbest.trans (Nat.le_succ index), h.zeros, fun hne => absurd rfl hne, ?_⟩
    intro k hle hlt
    exact absurd hlt (Nat.not_lt.mpr hle)

variable {hextets : List Nat}

theorem ZeroRun.Sound.zeroRun {rest : List Nat} {index : Nat} {run : ZeroRun}
    (h : run.Sound hextets index) (hrest : hextets.drop index = rest) :
    (IpAddress.zeroRun rest index run).Sound hextets (index + rest.length) := by
  induction rest generalizing index run with
  | nil => exact h
  | cons hextet rest ih =>
    have hindex : hextets[index]? = some hextet := by
      rw [← List.head?_drop, hrest]
      rfl
    have hdrop : hextets.drop (index + 1) = rest := by
      rw [← List.tail_drop, hrest]
      rfl
    have hnext := ih (h.next hindex) hdrop
    rw [List.length_cons]
    rw [show index + (rest.length + 1) = index + 1 + rest.length by omega]
    exact hnext

/-- The text of an address leaves out one run of zeros, or none. -/
theorem compress_cases (hextets : List Nat) :
    compress hextets = hextets.map hexText ∨
      ∃ high low n, 1 < n ∧ hextets = high ++ List.replicate n 0 ++ low ∧
        compress hextets = around high low := by
  have hsound : (zeroRun hextets 0 ⟨0, 0, 0, 0⟩).Sound hextets (0 + hextets.length) := by
    refine ZeroRun.Sound.zeroRun ⟨le_rfl, ?_, fun h => absurd rfl h, ?_⟩ rfl
    all_goals
      intro k _ hlt
      cases hlt
  rw [Nat.zero_add] at hsound
  unfold compress
  generalize zeroRun hextets 0 ⟨0, 0, 0, 0⟩ = run at hsound ⊢
  by_cases hlong : 1 < run.bestLength
  · rw [if_pos hlong]
    refine .inr ⟨hextets.take run.bestStart, hextets.drop (run.bestStart + run.bestLength),
      run.bestLength, hlong, ?_, ?_⟩
    · have hmiddle : (hextets.drop run.bestStart).take run.bestLength =
          List.replicate run.bestLength 0 := by
        refine List.ext_getElem? fun k => ?_
        rw [List.getElem?_take, List.getElem?_replicate, List.getElem?_drop]
        split
        next hk => exact hsound.zeros _ (by omega) (by omega)
        next => rfl
      rw [← hmiddle, List.append_assoc, ← List.drop_drop, List.take_append_drop,
        List.take_append_drop]
    · have hbest := hsound.best
      have hhigh : hextets.take run.bestStart = [] ↔ run.bestStart = 0 := by
        rw [List.take_eq_nil_iff]
        constructor
        · rintro (h | rfl)
          · exact h
          · simp only [List.length_nil] at hbest
            omega
        · exact .inl
      have hlow : hextets.drop (run.bestStart + run.bestLength) = [] ↔
          run.bestStart + run.bestLength = hextets.length := by
        rw [List.drop_eq_nil_iff]
        omega
      simp only [around, hhigh, hlow, List.map_take, List.map_drop]
  · rw [if_neg hlong]
    exact .inl rfl

theorem skipped_eq_nil (h : ∀ part ∈ parts, part ≠ []) : skipped parts = [] := by
  unfold skipped
  rw [List.filter_eq_nil_iff]
  intro k hk hempty
  have hlt : k < parts.length := List.mem_range.mp hk
  simp only [Bool.and_eq_true, List.isEmpty_iff, List.getD_eq_getElem?_getD,
    List.getElem?_eq_getElem hlt, Option.getD_some] at hempty
  exact h _ (List.getElem_mem hlt) hempty.2

/-- One empty part between others is the one that is skipped. -/
theorem skipped_append {xs ys : List (List Char)} (hxs : xs ≠ []) (hys : ys ≠ [])
    (hhigh : ∀ part ∈ xs.tail, part ≠ []) (hlow : ∀ part ∈ ys.dropLast, part ≠ []) :
    skipped (xs ++ [] :: ys) = [xs.length] := by
  have hxs' : 0 < xs.length := List.length_pos_iff.mpr hxs
  have hys' : 0 < ys.length := List.length_pos_iff.mpr hys
  have hone : ∀ k ∈ List.range (xs ++ [] :: ys).length,
      (decide (0 < k) && decide (k + 1 < (xs ++ [] :: ys).length) &&
        ((xs ++ [] :: ys).getD k []).isEmpty) = (k == xs.length) := by
    intro k hk
    have hlt : k < (xs ++ [] :: ys).length := List.mem_range.mp hk
    simp only [List.length_append, List.length_cons] at hlt ⊢
    rcases Nat.lt_trichotomy k xs.length with hlt' | rfl | hgt
    · have hne : (k == xs.length) = false := by simp; omega
      rw [hne]
      by_cases hzero : k = 0
      · simp [hzero]
      · have hpart : xs[k] ≠ [] := by
          refine hhigh _ ?_
          rw [List.mem_iff_getElem]
          exact ⟨k - 1, by simp; omega, by simp [Nat.sub_add_cancel (Nat.pos_of_ne_zero hzero)]⟩
        simp [List.getElem?_append_left hlt', List.getElem?_eq_getElem hlt', hpart]
    · simp [hxs', hys']
    · have hne : (k == xs.length) = false := by simp; omega
      rw [hne]
      obtain ⟨j, rfl⟩ : ∃ j, k = xs.length + 1 + j := ⟨k - (xs.length + 1), by omega⟩
      have hj : j < ys.length := by omega
      have hget : (xs ++ [] :: ys)[xs.length + 1 + j]? = some ys[j] := by
        rw [List.getElem?_append_right (by omega)]
        rw [show xs.length + 1 + j - xs.length = j + 1 by omega, List.getElem?_cons_succ,
          List.getElem?_eq_getElem hj]
      by_cases hlast : j + 1 = ys.length
      · have hnot : ¬ xs.length + 1 + j + 1 < xs.length + (ys.length + 1) := by omega
        simp [hnot]
      · have hpart : ys[j] ≠ [] := by
          refine hlow _ ?_
          rw [List.mem_iff_getElem]
          exact ⟨j, by simp; omega, by simp⟩
        simp [hget, hpart]
  unfold skipped
  rw [List.filter_congr hone]
  have hmem : xs.length ∈ List.range (xs ++ [] :: ys).length := by
    simp only [List.mem_range, List.length_append, List.length_cons]
    omega
  rw [List.filter_beq, List.count_eq_one_of_mem List.nodup_range hmem]
  rfl

theorem parseHextets (h : ∀ n ∈ hextets, n < 65536) :
    (hextets.map hexText).mapM parseHextet = some hextets :=
  mapM_map_of_inverse fun n hn => parseHextet_hexText (h n hn)

theorem hexTexts_ne_nil (hextets : List Nat) : ∀ part ∈ hextets.map hexText, part ≠ [] := by
  intro part hpart
  obtain ⟨n, -, rfl⟩ := List.mem_map.mp hpart
  exact hexText_ne_nil n

/-- All eight hextets, written out. -/
theorem hextetsOf_texts (hlength : hextets.length = 8) (h : ∀ n ∈ hextets, n < 65536) :
    hextetsOf (hextets.map hexText) = some hextets := by
  unfold hextetsOf
  rw [skipped_eq_nil (hexTexts_ne_nil hextets), List.length_map, hlength, parseHextets h]
  simp

/-- The part of a text on one side of a `::`, with the empty part that an end of the text has. -/
def side (hextets : List Nat) : List (List Char) :=
  if hextets = [] then [[]] else hextets.map hexText

theorem around_eq (high low : List Nat) : around high low = side high ++ [] :: side low := by
  unfold around side
  by_cases hhigh : high = []
  · by_cases hlow : low = []
    · simp [hhigh, hlow]
    · simp [hhigh, hlow]
  · by_cases hlow : low = []
    · simp [hhigh, hlow]
    · simp [hhigh, hlow]

theorem side_ne_nil (hextets : List Nat) : side hextets ≠ [] := by
  unfold side
  split
  · simp
  next h => simpa using h

theorem length_side (hextets : List Nat) : (side hextets).length = max 1 hextets.length := by
  unfold side
  split
  next h => simp [h]
  next h =>
    have := List.length_pos_iff.mpr h
    rw [List.length_map]
    omega

/-- Without the empty part at an end, the side of a text is its hextets, and it is alone there. -/
theorem side_head (hextets : List Nat) :
    (if (side hextets).head? = some [] then (side hextets).tail else side hextets) =
        hextets.map hexText ∧
      ((side hextets).head? = some [] → hextets = []) := by
  unfold side
  cases hextets with
  | nil => simp
  | cons n hextets => simp [hexText_ne_nil n]

theorem side_getLast (hextets : List Nat) :
    (if (side hextets).getLast? = some [] then (side hextets).dropLast else side hextets) =
        hextets.map hexText ∧
      ((side hextets).getLast? = some [] → hextets = []) := by
  unfold side
  rcases List.eq_nil_or_concat hextets with rfl | ⟨init, n, rfl⟩
  · simp
  · simp [hexText_ne_nil n]

/-- Hextets around a `::`, which stands for two zeros or more. -/
theorem hextetsOf_around {high low : List Nat} (hn : 1 < n)
    (hlength : high.length + n + low.length = 8) (hhigh : ∀ m ∈ high, m < 65536)
    (hlow : ∀ m ∈ low, m < 65536) :
    hextetsOf (around high low) = some (high ++ List.replicate n 0 ++ low) := by
  obtain ⟨hhead, hhead'⟩ := side_head high
  obtain ⟨hlast, hlast'⟩ := side_getLast low
  have hskipped : skipped (side high ++ [] :: side low) = [(side high).length] := by
    refine skipped_append (side_ne_nil high) (side_ne_nil low) ?_ ?_
    · intro part hpart
      unfold side at hpart
      split at hpart
      · cases hpart
      · exact hexTexts_ne_nil high part (List.mem_of_mem_tail hpart)
    · intro part hpart
      unfold side at hpart
      split at hpart
      · cases hpart
      · exact hexTexts_ne_nil low part (List.dropLast_subset _ hpart)
  have hshort : ¬ 9 < (side high ++ [] :: side low).length := by
    simp only [List.length_append, List.length_cons, length_side]
    omega
  have hdrop : (side high ++ [] :: side low).drop ((side high).length + 1) = side low := by
    rw [← List.drop_drop, List.drop_left]
    rfl
  rw [around_eq]
  unfold hextetsOf
  rw [if_neg hshort, hskipped]
  simp only [List.take_left, hdrop, hhead, hlast, List.length_map]
  rw [if_neg, if_neg, if_neg (by omega), parseHextets hhigh, parseHextets hlow]
  · have hzeros : 8 - (high.length + low.length) = n := by omega
    simp only [Option.bind_eq_bind, Option.bind_some, hzeros, Option.pure_def]
  · intro h
    simp only [Bool.and_eq_true, decide_eq_true_eq] at h
    exact absurd h.2 (by simp [hlast' h.1])
  · intro h
    simp only [Bool.and_eq_true, decide_eq_true_eq] at h
    exact absurd h.2 (by simp [hhead' h.1])

/-! ## Colons -/

/-- The shape of the parts of a text: enough of them to have two colons, few enough to be short, and
each at most four hexadecimal digits. -/
structure Parts (parts : List (List Char)) : Prop where
  many : 3 ≤ parts.length
  few : parts.length ≤ 9
  hex : ∀ part ∈ parts, ∀ c ∈ part, isHex c = true
  short : ∀ part ∈ parts, part.length ≤ 4

theorem parts_compress (hlength : hextets.length = 8) (h : ∀ n ∈ hextets, n < 65536) :
    Parts (compress hextets) := by
  have htexts : ∀ part, part = [] ∨ (∃ n ∈ hextets, part = hexText n) →
      (∀ c ∈ part, isHex c = true) ∧ part.length ≤ 4 := by
    rintro part (rfl | ⟨n, hn, rfl⟩)
    · exact ⟨by simp, by simp⟩
    · exact ⟨isHex_hexText n, length_hexText (h n hn)⟩
  have hparts : ∀ part ∈ compress hextets, part = [] ∨ ∃ n ∈ hextets, part = hexText n := by
    rcases compress_cases hextets with heq | ⟨high, low, n, -, hsplit, heq⟩
    · intro part hpart
      rw [heq] at hpart
      obtain ⟨m, hm, rfl⟩ := List.mem_map.mp hpart
      exact .inr ⟨m, hm, rfl⟩
    · intro part hpart
      rw [heq, around_eq, List.mem_append, List.mem_cons] at hpart
      have hside : ∀ l, l ⊆ hextets → part ∈ side l → part = [] ∨ ∃ n ∈ hextets, part = hexText n := by
        intro l hl hmem
        unfold side at hmem
        split at hmem
        · exact .inl (by simpa using hmem)
        · obtain ⟨m, hm, rfl⟩ := List.mem_map.mp hmem
          exact .inr ⟨m, hl hm, rfl⟩
      rcases hpart with hpart | hpart | hpart
      · exact hside high (by rw [hsplit]; simp) hpart
      · exact .inl hpart
      · exact hside low (by rw [hsplit]; simp) hpart
  have hcount : 3 ≤ (compress hextets).length ∧ (compress hextets).length ≤ 9 := by
    rcases compress_cases hextets with heq | ⟨high, low, n, hn, hsplit, heq⟩
    · rw [heq, List.length_map, hlength]
      exact ⟨by simp, by simp⟩
    · rw [hsplit] at hlength
      simp only [List.length_append, List.length_replicate] at hlength
      rw [heq, around_eq]
      simp only [List.length_append, List.length_cons, length_side]
      omega
  exact ⟨hcount.1, hcount.2, fun part hpart => (htexts part (hparts part hpart)).1,
    fun part hpart => (htexts part (hparts part hpart)).2⟩

theorem length_join_le (h : ∀ part ∈ parts, part.length ≤ n) :
    (List.intercalate [c] parts).length ≤ (n + 1) * parts.length := by
  induction parts with
  | nil => simp [List.intercalate]
  | cons part parts ih =>
    have hpart := h part List.mem_cons_self
    have hrest := ih fun p hp => h p (List.mem_cons_of_mem part hp)
    cases parts with
    | nil =>
      simp only [List.intercalate, List.intersperse, List.flatten_cons, List.flatten_nil,
        List.append_nil, List.length_cons, List.length_nil]
      omega
    | cons part' parts =>
      rw [intercalate_cons_cons, List.length_append, List.length_cons, List.length_cons (a := part),
        Nat.mul_succ]
      omega

/-- The parts of a text that has no dotted quad at its end. -/
theorem parseV6_join (h : Parts parts) :
    parseV6 (List.intercalate [':'] parts) = hextetsOf parts := by
  have hne : parts ≠ [] := by
    rintro rfl
    exact absurd h.many (by simp)
  have hsplit : (List.intercalate [':'] parts).splitOn ':' = parts :=
    splitOn_join hne fun part hpart => not_mem_of_isHex (h.hex part hpart) rfl
  have hlength := length_join_le (c := ':') h.short
  have hfew := h.few
  have hnonempty : List.intercalate [':'] parts ≠ [] := by
    intro heq
    rw [heq] at hsplit
    have := h.many
    rw [← hsplit] at this
    exact absurd this (by simp)
  unfold parseV6
  rw [if_neg]
  · unfold v6Parts
    rw [hsplit, if_neg (by have := h.many; omega), List.getLast?_eq_some_getLast hne]
    have hdot : (parts.getLast hne).contains '.' = false := by
      have hnot : '.' ∉ parts.getLast hne :=
        not_mem_of_isHex (h.hex _ (List.getLast_mem hne)) rfl
      simpa using hnot
    simp only [hdot]
    rfl
  · simp only [List.isEmpty_iff, Bool.or_eq_true, decide_eq_true_eq, hnonempty, false_or]
    omega

theorem hextetsOf_compress (hlength : hextets.length = 8) (h : ∀ n ∈ hextets, n < 65536) :
    hextetsOf (compress hextets) = some hextets := by
  rcases compress_cases hextets with heq | ⟨high, low, n, hn, hsplit, heq⟩
  · rw [heq]
    exact hextetsOf_texts hlength h
  · rw [heq, hsplit]
    rw [hsplit] at hlength h
    refine hextetsOf_around hn ?_ ?_ ?_
    · simpa only [List.length_append, List.length_replicate] using hlength
    · exact fun m hm => h m (by simp [hm])
    · exact fun m hm => h m (by simp [hm])

/-! ## Mapped addresses -/

/-- The octets of an IPv4-mapped address. -/
def quad (high low : Nat) : List Nat := [high / 256, high % 256, low / 256, low % 256]

theorem v6Text_cases (hextets : List Nat) :
    (∃ high low, hextets = [0, 0, 0, 0, 0, 0xffff, high, low] ∧
      v6Text hextets = List.intercalate [':']
        [[], [], hexText 0xffff, List.intercalate ['.'] ((quad high low).map decimalText)]) ∨
      v6Text hextets = List.intercalate [':'] (compress hextets) := by
  unfold v6Text
  split
  next high low =>
    refine .inl ⟨high, low, rfl, ?_⟩
    have hffff : hexText 0xffff = "ffff".toList := by decide +kernel
    rw [hffff, intercalate_cons_cons, intercalate_cons_cons, intercalate_cons_cons]
    simp [List.intercalate, quad]
  next => exact .inr rfl

theorem parseV4_quad {high low : Nat} (hhigh : high < 65536) (hlow : low < 65536) :
    parseV4 (List.intercalate ['.'] ((quad high low).map decimalText)) = some (quad high low) := by
  refine parseV4_join rfl ?_
  intro n hn
  simp only [quad, List.mem_cons, List.not_mem_nil, or_false] at hn
  omega

theorem dot_mem_quad (high low : Nat) :
    '.' ∈ List.intercalate ['.'] ((quad high low).map decimalText) := by
  unfold quad
  rw [List.map_cons, List.map_cons, intercalate_cons_cons]
  simp

theorem parseV6_mapped {high low : Nat} (hhigh : high < 65536) (hlow : low < 65536) :
    parseV6 (List.intercalate [':']
      [[], [], hexText 0xffff, List.intercalate ['.'] ((quad high low).map decimalText)]) =
        some [0, 0, 0, 0, 0, 0xffff, high, low] := by
  have hquad := parseV4_quad hhigh hlow
  have hchars := mem_of_parseV4 hquad
  have hdot := dot_mem_quad high low
  have hlength : (List.intercalate ['.'] ((quad high low).map decimalText)).length ≤ 4 * 4 := by
    refine (length_join_le (n := 3) fun part hpart => ?_)
    obtain ⟨n, hn, rfl⟩ := List.mem_map.mp hpart
    refine (Nat.length_toDigits_le_iff (by decide) (by decide)).mpr ?_
    simp only [quad, List.mem_cons, List.not_mem_nil, or_false] at hn
    omega
  generalize htext : List.intercalate ['.'] ((quad high low).map decimalText) = text at *
  have hsplit : (List.intercalate [':'] [[], [], hexText 0xffff, text]).splitOn ':' =
      [[], [], hexText 0xffff, text] := by
    refine splitOn_join (by simp) ?_
    intro part hpart
    simp only [List.mem_cons, List.not_mem_nil, or_false] at hpart
    rcases hpart with rfl | rfl | rfl | rfl
    · simp
    · simp
    · exact not_mem_of_isHex (isHex_hexText _) rfl
    · intro hmem
      rcases hchars ':' hmem with h | h
      · cases h
      · cases h
  have haround : [[], [], hexText 0xffff, hexText high, hexText low] =
      around [] [0xffff, high, low] := rfl
  have hhextets : hextetsOf (around [] [0xffff, high, low]) =
      some ([] ++ List.replicate 5 0 ++ [0xffff, high, low]) := by
    refine hextetsOf_around (by decide) rfl (by simp) ?_
    intro m hm
    simp only [List.mem_cons, List.not_mem_nil, or_false] at hm
    omega
  have hparts : v6Parts (List.intercalate [':'] [[], [], hexText 0xffff, text]) =
      some (around [] [0xffff, high, low]) := by
    have hcontains : text.contains '.' = true := by simpa using hdot
    have hhigh' : high / 256 * 256 + high % 256 = high := Nat.div_add_mod' high 256
    have hlow' : low / 256 * 256 + low % 256 = low := Nat.div_add_mod' low 256
    unfold v6Parts
    rw [hsplit, if_neg (by simp)]
    simp only [List.getLast?_cons_cons, List.getLast?_singleton, hcontains, if_true, hquad, quad,
      hhigh', hlow', List.dropLast_cons_cons, List.dropLast_singleton, List.cons_append,
      List.nil_append, haround]
  unfold parseV6
  rw [if_neg]
  · rw [hparts, Option.bind_some, hhextets]
    rfl
  · have h4 : (hexText 0xffff).length ≤ 4 := length_hexText (by decide)
    simp only [intercalate_cons_cons, List.nil_append, List.isEmpty_cons, Bool.false_or,
      decide_eq_true_eq, List.length_cons, List.length_append]
    simp only [List.intercalate, List.intersperse, List.flatten_cons, List.flatten_nil,
      List.append_nil]
    omega

/-- The text of an IPv6 address is read back. -/
theorem parseV6_v6Text (hlength : hextets.length = 8) (h : ∀ n ∈ hextets, n < 65536) :
    parseV6 (v6Text hextets) = some hextets := by
  rcases v6Text_cases hextets with ⟨high, low, rfl, heq⟩ | heq
  · rw [heq]
    exact parseV6_mapped (h high (by simp)) (h low (by simp))
  · rw [heq, parseV6_join (parts_compress hlength h)]
    exact hextetsOf_compress hlength h

/-! ## Round trip -/

theorem isHex_of_isDigit (h : c.isDigit = true) : isHex c = true := by
  simp [isHex, h]

/-- The characters of an IPv6 text. -/
theorem mem_v6Text (hlength : hextets.length = 8) (h : ∀ n ∈ hextets, n < 65536)
    (hc : c ∈ v6Text hextets) : isHex c = true ∨ c = ':' ∨ c = '.' := by
  rcases v6Text_cases hextets with ⟨high, low, rfl, heq⟩ | heq
  · rw [heq] at hc
    rcases mem_intercalate hc with rfl | ⟨part, hpart, hmem⟩
    · exact .inr (.inl rfl)
    · simp only [List.mem_cons, List.not_mem_nil, or_false] at hpart
      rcases hpart with rfl | rfl | rfl | rfl
      · cases hmem
      · cases hmem
      · exact .inl (isHex_hexText _ c hmem)
      · rcases mem_of_parseV4 (parseV4_quad (h high (by simp)) (h low (by simp))) c hmem with hd | hd
        · exact .inl (isHex_of_isDigit hd)
        · exact .inr (.inr hd)
  · rw [heq] at hc
    rcases mem_intercalate hc with rfl | ⟨part, hpart, hmem⟩
    · exact .inr (.inl rfl)
    · exact .inl ((parts_compress hlength h).hex part hpart c hmem)

theorem colon_mem_join (h : 3 ≤ parts.length) : ':' ∈ List.intercalate [':'] parts := by
  rcases parts with _ | ⟨part, _ | ⟨part', parts⟩⟩
  · cases h
  · exact absurd h (by simp)
  · rw [intercalate_cons_cons]
    simp

theorem colon_mem_v6Text (hlength : hextets.length = 8) (h : ∀ n ∈ hextets, n < 65536) :
    ':' ∈ v6Text hextets := by
  rcases v6Text_cases hextets with ⟨high, low, -, heq⟩ | heq
  · rw [heq]
    exact colon_mem_join (by simp)
  · rw [heq]
    exact colon_mem_join (parts_compress hlength h).many

theorem not_mem_v6Text (hlength : hextets.length = 8) (h : ∀ n ∈ hextets, n < 65536)
    (hhex : isHex c = false) (hcolon : c ≠ ':') (hdot : c ≠ '.') : c ∉ v6Text hextets := by
  intro hc
  rcases mem_v6Text hlength h hc with hmem | hmem | hmem
  · cases hhex.symm.trans hmem
  · exact hcolon hmem
  · exact hdot hmem

theorem splitScopeId_none (h : '%' ∉ text) : splitScopeId text = some (text, none) := by
  unfold splitScopeId
  rw [if_neg (by simpa using h)]

theorem splitScopeId_some {scopeId : List Char} (h : '%' ∉ text) (hne : scopeId ≠ [])
    (hscope : '%' ∉ scopeId) :
    splitScopeId (text ++ '%' :: scopeId) = some (text, some scopeId) := by
  have hall : ∀ c ∈ text, decide (c ≠ '%') = true := by
    intro c hc
    have hne : c ≠ '%' := fun heq => h (heq ▸ hc)
    simpa using hne
  have hdrop : (text ++ '%' :: scopeId).dropWhile (fun c => decide (c ≠ '%')) = '%' :: scopeId := by
    rw [List.dropWhile_append_of_pos hall]
    simp
  have htake : (text ++ '%' :: scopeId).takeWhile (fun c => decide (c ≠ '%')) = text := by
    rw [List.takeWhile_append_of_pos hall]
    simp
  unfold splitScopeId
  rw [if_pos (by simp)]
  simp only [hdrop, htake, List.tail_cons]
  rw [if_neg (by simp [hne, hscope])]

/-- **The text of an address is read back as the address.** -/
theorem parse_chars {a : IpAddress} (h : a.Valid) : parse a.chars = some a := by
  cases h with
  | @v4 octets hlength hoctets =>
    have hparse := parseV4_join hlength hoctets
    have hslash : (List.intercalate ['.'] (octets.map decimalText)).contains '/' = false := by
      have hnot : '/' ∉ List.intercalate ['.'] (octets.map decimalText) := by
        intro hmem
        rcases mem_of_parseV4 hparse '/' hmem with hd | hd
        · cases hd
        · cases hd
      simpa using hnot
    simp only [chars, parse, hslash, hparse]
    rfl
  | @v6 hextets scopeId hlength hhextets hscope =>
    have hcolon := colon_mem_v6Text hlength hhextets
    have hparse := parseV6_v6Text hlength hhextets
    have hslash := not_mem_v6Text hlength hhextets (c := '/') (by decide) (by decide) (by decide)
    have hpercent := not_mem_v6Text hlength hhextets (c := '%') (by decide) (by decide) (by decide)
    cases scopeId with
    | none =>
      have hslash' : (v6Text hextets).contains '/' = false := by simpa using hslash
      simp only [chars, parse, hslash', parseV4_eq_none hcolon, splitScopeId_none hpercent,
        Option.bind_eq_bind, Option.bind_some, hparse, Option.pure_def]
      rfl
    | some s =>
      obtain ⟨hne, hs, hs'⟩ := hscope s rfl
      have hslash' : (v6Text hextets ++ '%' :: s).contains '/' = false := by
        have hnot : '/' ∉ v6Text hextets ++ '%' :: s := by simp [hslash, hs']
        simpa using hnot
      have hcolon' : ':' ∈ v6Text hextets ++ '%' :: s := List.mem_append_left _ hcolon
      simp only [chars, parse, hslash', parseV4_eq_none hcolon', splitScopeId_some hpercent hne hs,
        Option.bind_eq_bind, Option.bind_some, hparse, Option.pure_def]
      rfl

/-! ## Accepted texts -/

theorem hexDigit_lt (h : isHex c = true) : hexDigit c < 16 := by
  have htwo : 'a'.toNat = 97 ∧ 'A'.toNat = 65 ∧ '0'.toNat = 48 := by decide
  simp only [isHex, Char.isDigit, Bool.or_eq_true, Bool.and_eq_true, decide_eq_true_eq,
    Char.le_def, UInt32.le_iff_toNat_le, ge_iff_le] at h
  simp only [hexDigit, Char.isDigit, Bool.and_eq_true, decide_eq_true_eq, Char.le_def,
    UInt32.le_iff_toNat_le, ge_iff_le, Char.toNat]
  simp only [Char.reduceVal, UInt32.reduceToNat] at h ⊢
  split
  · omega
  · split
    · omega
    · omega

theorem number_lt {base : Nat} {digit : Char → Nat} (h : ∀ c ∈ text, digit c < base) :
    number base digit text < base ^ text.length := by
  induction text using List.reverseRecOn with
  | nil => simp [number]
  | append_singleton text c ih =>
    have hrest := ih fun d hd => h d (List.mem_append_left _ hd)
    have hc := h c (by simp)
    rw [number_append, List.length_append, List.length_singleton, pow_succ]
    calc number base digit text * base + digit c
        < number base digit text * base + base := by omega
      _ = (number base digit text + 1) * base := by rw [Nat.succ_mul]
      _ ≤ base ^ text.length * base := Nat.mul_le_mul_right base hrest

theorem lt_of_parseHextet (h : parseHextet text = some n) : n < 65536 := by
  unfold parseHextet at h
  split at h
  · cases h
  next hshape =>
    cases h
    simp only [Bool.or_eq_true, not_or, Bool.not_eq_true', Bool.not_eq_false,
      decide_eq_true_eq] at hshape
    have hall := List.all_eq_true.mp hshape.1.2
    have hlt := number_lt fun c hc => hexDigit_lt (hall c hc)
    refine hlt.trans_le ?_
    calc 16 ^ text.length ≤ 16 ^ 4 := Nat.pow_le_pow_right (by decide) (by omega)
      _ = 65536 := by decide

theorem lt_of_mapM_parseHextet (h : parts.mapM parseHextet = some hextets) :
    ∀ n ∈ hextets, n < 65536 := by
  intro n hn
  obtain ⟨part, -, hpart⟩ := (of_mapM h).2.2 n hn
  exact lt_of_parseHextet hpart

theorem valid_of_hextetsOf (h : hextetsOf parts = some hextets) :
    hextets.length = 8 ∧ ∀ n ∈ hextets, n < 65536 := by
  unfold hextetsOf at h
  split at h
  · cases h
  · split at h
    · split at h
      · cases h
      next height =>
        refine ⟨?_, lt_of_mapM_parseHextet h⟩
        have := (of_mapM h).1
        omega
    next k _ =>
      simp only at h
      generalize (if (parts.take k).head? = some [] then (parts.take k).tail else
        parts.take k) = high at h
      generalize (if (parts.drop (k + 1)).getLast? = some [] then (parts.drop (k + 1)).dropLast else
        parts.drop (k + 1)) = low at h
      split at h
      · cases h
      · split at h
        · cases h
        · split at h
          · cases h
          next hshort =>
            obtain ⟨highs, hhighs, h⟩ := Option.bind_eq_some_iff.mp h
            obtain ⟨lows, hlows, h⟩ := Option.bind_eq_some_iff.mp h
            cases h
            have hhigh := (of_mapM hhighs).1
            have hlow := (of_mapM hlows).1
            constructor
            · simp only [List.length_append, List.length_replicate]
              omega
            · intro n hn
              simp only [List.mem_append, List.mem_replicate] at hn
              rcases hn with (hn | ⟨-, rfl⟩) | hn
              · exact lt_of_mapM_parseHextet hhighs n hn
              · decide
              · exact lt_of_mapM_parseHextet hlows n hn
    · cases h

theorem of_splitScopeId {address : List Char} {scopeId : Option (List Char)}
    (h : splitScopeId text = some (address, scopeId)) :
    ∀ s, scopeId = some s → s ≠ [] ∧ '%' ∉ s ∧ ∀ c ∈ s, c ∈ text := by
  rintro s rfl
  unfold splitScopeId at h
  split at h
  · simp only at h
    split at h
    · cases h
    next hshape =>
      obtain ⟨-, hs⟩ := Prod.mk.inj (Option.some.inj h)
      cases hs
      simp only [Bool.or_eq_true, not_or, List.isEmpty_iff] at hshape
      refine ⟨hshape.1, by simpa using hshape.2, fun c hc => ?_⟩
      exact (List.dropWhile_suffix _).subset (List.mem_of_mem_tail hc)
  · exact absurd (Prod.mk.inj (Option.some.inj h)).2 (by simp)

/-- A text that is accepted names an address that can be written. -/
theorem valid_of_parse {a : IpAddress} (h : parse text = some a) : a.Valid := by
  unfold parse at h
  split at h
  · cases h
  next hslash =>
    split at h
    next octets hparse =>
      cases h
      exact valid_of_parseV4 hparse
    next =>
      obtain ⟨⟨address, scopeId⟩, hsplit, h⟩ := Option.bind_eq_some_iff.mp h
      obtain ⟨hextets, hparse, h⟩ := Option.bind_eq_some_iff.mp h
      cases h
      have hhextets : ∃ parts, hextetsOf parts = some hextets := by
        unfold parseV6 at hparse
        split at hparse
        · cases hparse
        · obtain ⟨parts, -, hparts⟩ := Option.bind_eq_some_iff.mp hparse
          exact ⟨parts, hparts⟩
      obtain ⟨parts, hparts⟩ := hhextets
      obtain ⟨hlength, hlt⟩ := valid_of_hextetsOf hparts
      refine .v6 hlength hlt fun s hs => ?_
      obtain ⟨hne, hpercent, hsub⟩ := of_splitScopeId hsplit s hs
      refine ⟨hne, hpercent, fun hmem => ?_⟩
      exact absurd (hsub _ hmem) (by simpa using hslash)

end IpAddress

/-- `str` of an accepted address is accepted, as the same address. -/
theorem ipAddress_text {value : String} {a : IpAddress} (h : ipAddress value = some a) :
    ipAddress a.text = some a := by
  unfold ipAddress IpAddress.text
  rw [String.toList_ofList]
  exact IpAddress.parse_chars (IpAddress.valid_of_parse h)

end StorageInstances
end OpenstackPlatform
