import Mathlib.Data.Nat.Basic
import Mathlib.Data.List.Basic
import Mathlib.Data.List.Forall2

/-!
# Texts of code points

A text is a list of code points in which surrogates may stand alone, as in Python's `str`.  A text
without surrogates is a string.  The file has the codecs a JSON reader needs: UTF-8 as it is
written, and UTF-8, UTF-16 and UTF-32 as they are read under `surrogatepass`, which lets encoded
surrogates through.

* `Text.ofString`, `Text.toString?`: strings as texts and back, with `Text.toString?_eq_some_iff`.
* `Text.encode?`: the UTF-8 bytes, and nothing for a text with a surrogate.
* `Text.decodeUtf8`, `Text.decodeUtf16`, `Text.decodeUtf32`.
* `Text.decodeUtf8_ascii`, `Text.encode?_ascii`: ASCII is its own encoding.
* `Text.decodeStrict?`, `Text.decodeStrict?_of_encode?`: UTF-8 as it is read otherwise.
* `notMem_of_mem_splitOn`, `mem_intercalate`: what a split separates and a join puts together.
* `mapM_eq_some_iff`, `of_mapM`: lists that are read element by element.
-/

namespace OpenstackPlatform
namespace Library

/-- Code points; surrogates may stand alone. -/
abbrev Text := List Nat

namespace Text

/-- A property of the characters of a list is decided along the list, not over all characters. -/
instance (priority := 2000) decidableForallMemChar (l : List Char) (P : Char → Prop)
    [DecidablePred P] : Decidable (∀ c ∈ l, P c) :=
  List.decidableBAll P l

instance (priority := 2000) decidableForallMemChar? (c : Option Char) (P : Char → Prop)
    [DecidablePred P] : Decidable (∀ d ∈ c, P d) :=
  match c with
  | none => .isTrue nofun
  | some c => decidable_of_iff (P c) ⟨fun h _ hd => Option.some.inj hd ▸ h, fun h => h c rfl⟩

/-! ## Code points -/

/-- `U+D800` to `U+DBFF` -/
def isHigh (c : Nat) : Bool := 0xD800 ≤ c && c ≤ 0xDBFF

/-- `U+DC00` to `U+DFFF` -/
def isLow (c : Nat) : Bool := 0xDC00 ≤ c && c ≤ 0xDFFF

/-- The code point of a pair of surrogates. -/
def join (high low : Nat) : Nat := 0x10000 + (high - 0xD800) * 0x400 + (low - 0xDC00)

/-- The code point stands for a character. -/
def isScalar (c : Nat) : Bool := c < 0x110000 && !isHigh c && !isLow c

/-- A scalar code point is the number of a character. -/
theorem isScalar_iff {c : Nat} : isScalar c = true ↔ c.isValidChar := by
  simp only [isScalar, isHigh, isLow, Bool.and_eq_true, decide_eq_true_eq, Bool.not_eq_true',
    Bool.and_eq_false_iff, decide_eq_false_iff_not, Nat.isValidChar]
  omega

theorem isScalar_char (c : Char) : isScalar c.toNat = true := isScalar_iff.mpr c.valid

/-- The text of a string. -/
def ofString (s : String) : Text := s.toList.map Char.toNat

/-- The string of a text without surrogates. -/
def toString? (t : Text) : Option String :=
  if t.all isScalar then some (String.ofList (t.map Char.ofNat)) else none

theorem ofNat_toNat_of_isScalar {c : Nat} (h : isScalar c = true) : (Char.ofNat c).toNat = c := by
  have hv : c.isValidChar := isScalar_iff.mp h
  rw [Char.ofNat, dif_pos hv]
  rfl

theorem map_toNat_ofNat : ∀ {t : Text}, t.all isScalar = true →
    (t.map Char.ofNat).map Char.toNat = t
  | [], _ => rfl
  | c :: t, h => by
    obtain ⟨hc, ht⟩ := Bool.and_eq_true_iff.mp h
    rw [List.map_cons, List.map_cons, ofNat_toNat_of_isScalar hc, map_toNat_ofNat ht]

theorem all_isScalar_ofString (s : String) : (ofString s).all isScalar = true := by
  rw [ofString, List.all_map, List.all_eq_true]
  intro c _
  exact isScalar_char c

@[simp] theorem toString?_ofString (s : String) : toString? (ofString s) = some s := by
  rw [toString?, if_pos (all_isScalar_ofString s), ofString, List.map_map]
  simp only [Option.some.injEq]
  rw [show Char.ofNat ∘ Char.toNat = id from funext Char.ofNat_toNat, List.map_id,
    String.ofList_toList]

variable {t : Text}

/-- A text is the string's exactly when it reads as the string. -/
theorem toString?_eq_some_iff {s : String} : toString? t = some s ↔ t = ofString s := by
  constructor
  · intro h
    rw [toString?] at h
    split at h
    · rename_i ht
      rw [← Option.some.inj h, ofString, String.toList_ofList, map_toNat_ofNat ht]
    · cases h
  · rintro rfl
    exact toString?_ofString s

theorem ofString_injective : Function.Injective ofString := by
  intro s t h
  have := congrArg toString? h
  rw [toString?_ofString, toString?_ofString] at this
  exact Option.some.inj this

@[simp] theorem length_ofString (s : String) : (ofString s).length = s.length := by
  rw [ofString, List.length_map, String.length_toList]

/-! ## UTF-8 -/

/-- The bytes of one code point. -/
def encodePoint (c : Nat) : List Nat :=
  if c < 0x80 then [c]
  else if c < 0x800 then [0xC0 + c / 0x40, 0x80 + c % 0x40]
  else if c < 0x10000 then [0xE0 + c / 0x1000, 0x80 + c / 0x40 % 0x40, 0x80 + c % 0x40]
  else [0xF0 + c / 0x40000, 0x80 + c / 0x1000 % 0x40, 0x80 + c / 0x40 % 0x40, 0x80 + c % 0x40]

/-- The UTF-8 bytes of a text without surrogates. -/
def encode? (t : Text) : Option (List Nat) :=
  if t.all isScalar then some (t.flatMap encodePoint) else none

/-- A continuation byte. -/
def isTail (b : Nat) : Bool := 0x80 ≤ b && b ≤ 0xBF

/-- UTF-8 with `surrogatepass`: overlong forms and numbers above `U+10FFFF` are refused, encoded
surrogates are not. -/
def decodeUtf8 : List Nat → Option Text
  | [] => some []
  | a :: rest =>
    if a < 0x80 then (decodeUtf8 rest).map (a :: ·)
    else
      match rest with
      | [] => none
      | b :: rest =>
        if 0xC2 ≤ a && a < 0xE0 && isTail b then
          (decodeUtf8 rest).map (((a - 0xC0) * 0x40 + (b - 0x80)) :: ·)
        else
          match rest with
          | [] => none
          | c :: rest =>
            let three := (a - 0xE0) * 0x1000 + (b - 0x80) * 0x40 + (c - 0x80)
            if 0xE0 ≤ a && a < 0xF0 && isTail b && isTail c && 0x800 ≤ three then
              (decodeUtf8 rest).map (three :: ·)
            else
              match rest with
              | [] => none
              | d :: rest =>
                let four :=
                  (a - 0xF0) * 0x40000 + (b - 0x80) * 0x1000 + (c - 0x80) * 0x40 + (d - 0x80)
                if 0xF0 ≤ a && a < 0xF8 && isTail b && isTail c && isTail d && 0x10000 ≤ four &&
                    four < 0x110000 then
                  (decodeUtf8 rest).map (four :: ·)
                else none

/-- Every code point is ASCII. -/
def IsAscii (t : Text) : Prop := ∀ c ∈ t, c < 0x80

/-- Every code point is a printable ASCII character. -/
def IsPrintable (t : Text) : Prop := ∀ c ∈ t, 32 ≤ c ∧ c < 127

instance : DecidablePred IsPrintable := fun t =>
  inferInstanceAs (Decidable (∀ c ∈ t, 32 ≤ c ∧ c < 127))

theorem isPrintable_nil : IsPrintable [] := by
  intro c hc
  cases hc

theorem IsPrintable.cons {c : Nat} {t : Text} (hc : 32 ≤ c ∧ c < 127) (ht : IsPrintable t) :
    IsPrintable (c :: t) := by
  intro d hd
  rcases List.mem_cons.mp hd with rfl | hd
  · exact hc
  · exact ht d hd

theorem IsPrintable.append {s : Text} (hs : IsPrintable s) (ht : IsPrintable t) :
    IsPrintable (s ++ t) := by
  intro c hc
  rcases List.mem_append.mp hc with h | h
  · exact hs c h
  · exact ht c h

theorem IsPrintable.isAscii (h : IsPrintable t) : IsAscii t := by
  intro c hc
  have := h c hc
  omega

theorem isScalar_of_lt {c : Nat} (h : c < 0x80) : isScalar c = true := by
  rw [isScalar_iff, Nat.isValidChar]
  omega

theorem IsAscii.all_isScalar (h : IsAscii t) : t.all isScalar = true := by
  rw [List.all_eq_true]
  intro c hc
  exact isScalar_of_lt (h c hc)

theorem IsAscii.flatMap_encodePoint : ∀ {t : Text}, IsAscii t → t.flatMap encodePoint = t
  | [], _ => rfl
  | c :: t, h => by
    have hc : c < 0x80 := h c (List.mem_cons_self)
    have ht : IsAscii t := fun d hd => h d (List.mem_cons_of_mem _ hd)
    rw [List.flatMap_cons, encodePoint, if_pos hc, ht.flatMap_encodePoint, List.singleton_append]

/-- ASCII is its own UTF-8 encoding. -/
theorem encode?_ascii (h : IsAscii t) : encode? t = some t := by
  rw [encode?, if_pos h.all_isScalar, h.flatMap_encodePoint]

/-- ASCII bytes decode to themselves. -/
theorem decodeUtf8_ascii : ∀ {t : Text}, IsAscii t → decodeUtf8 t = some t
  | [], _ => by rw [decodeUtf8]
  | c :: t, h => by
    have hc : c < 0x80 := h c (List.mem_cons_self)
    have ht : IsAscii t := fun d hd => h d (List.mem_cons_of_mem _ hd)
    rw [decodeUtf8.eq_def]
    simp only [if_pos hc, decodeUtf8_ascii ht, Option.map_some]

/-- What is written is read back, code point by code point. -/
theorem decodeUtf8_encodePoint {c : Nat} (hc : c < 0x110000) (rest : List Nat) :
    decodeUtf8 (encodePoint c ++ rest) = (decodeUtf8 rest).map (c :: ·) := by
  unfold encodePoint
  by_cases h1 : c < 0x80
  · rw [if_pos h1, List.singleton_append, decodeUtf8.eq_def]
    simp only [if_pos h1]
  by_cases h2 : c < 0x800
  · rw [if_neg h1, if_pos h2, List.cons_append, List.singleton_append, decodeUtf8.eq_def]
    have hlead : ¬ 0xC0 + c / 0x40 < 0x80 := by omega
    have hbytes : (decide (0xC2 ≤ 0xC0 + c / 0x40) && decide (0xC0 + c / 0x40 < 0xE0) &&
        isTail (0x80 + c % 0x40)) = true := by
      simp only [isTail, Bool.and_eq_true, decide_eq_true_eq]
      omega
    have hvalue : (0xC0 + c / 0x40 - 0xC0) * 0x40 + (0x80 + c % 0x40 - 0x80) = c := by omega
    simp only [if_neg hlead, hbytes, if_true, hvalue]
  by_cases h3 : c < 0x10000
  · rw [if_neg h1, if_neg h2, if_pos h3, List.cons_append, List.cons_append,
      List.singleton_append, decodeUtf8.eq_def]
    have hlead : ¬ 0xE0 + c / 0x1000 < 0x80 := by omega
    have htwo : ¬ 0xE0 + c / 0x1000 < 0xE0 := by omega
    have hbytes : (decide (0xE0 ≤ 0xE0 + c / 0x1000) && decide (0xE0 + c / 0x1000 < 0xF0) &&
        isTail (0x80 + c / 0x40 % 0x40) && isTail (0x80 + c % 0x40) &&
        decide (0x800 ≤ (0xE0 + c / 0x1000 - 0xE0) * 0x1000 +
          (0x80 + c / 0x40 % 0x40 - 0x80) * 0x40 + (0x80 + c % 0x40 - 0x80))) = true := by
      simp only [isTail, Bool.and_eq_true, decide_eq_true_eq]
      omega
    have hvalue : (0xE0 + c / 0x1000 - 0xE0) * 0x1000 + (0x80 + c / 0x40 % 0x40 - 0x80) * 0x40 +
        (0x80 + c % 0x40 - 0x80) = c := by omega
    simp only [if_neg hlead, htwo, decide_false, Bool.and_false, Bool.false_and,
      Bool.false_eq_true, if_false, hbytes, if_true]
    rw [hvalue]
  · rw [if_neg h1, if_neg h2, if_neg h3, List.cons_append, List.cons_append, List.cons_append,
      List.singleton_append, decodeUtf8.eq_def]
    have hlead : ¬ 0xF0 + c / 0x40000 < 0x80 := by omega
    have htwo : ¬ 0xF0 + c / 0x40000 < 0xE0 := by omega
    have hthree : ¬ 0xF0 + c / 0x40000 < 0xF0 := by omega
    have hvalue : (0xF0 + c / 0x40000 - 0xF0) * 0x40000 +
        (0x80 + c / 0x1000 % 0x40 - 0x80) * 0x1000 + (0x80 + c / 0x40 % 0x40 - 0x80) * 0x40 +
        (0x80 + c % 0x40 - 0x80) = c := by omega
    have hbytes : (decide (0xF0 ≤ 0xF0 + c / 0x40000) && decide (0xF0 + c / 0x40000 < 0xF8) &&
        isTail (0x80 + c / 0x1000 % 0x40) && isTail (0x80 + c / 0x40 % 0x40) &&
        isTail (0x80 + c % 0x40) && decide (0x10000 ≤ c) && decide (c < 0x110000)) = true := by
      simp only [isTail, Bool.and_eq_true, decide_eq_true_eq]
      omega
    simp only [if_neg hlead, htwo, hthree, decide_false, Bool.and_false, Bool.false_and,
      Bool.false_eq_true, if_false, hvalue, hbytes, if_true]

/-- UTF-8 is read as the text it was written from. -/
theorem decodeUtf8_flatMap : ∀ {t : Text}, t.all isScalar = true →
    decodeUtf8 (t.flatMap encodePoint) = some t
  | [], _ => by rw [List.flatMap_nil, decodeUtf8]
  | c :: t, h => by
    obtain ⟨hc, ht⟩ := Bool.and_eq_true_iff.mp h
    have hlt : c < 0x110000 := by
      rw [isScalar, Bool.and_eq_true, Bool.and_eq_true, decide_eq_true_eq] at hc
      exact hc.1.1
    rw [List.flatMap_cons, decodeUtf8_encodePoint hlt, decodeUtf8_flatMap ht, Option.map_some]

/-- UTF-8 without encoded surrogates, `bytes.decode("utf-8")`. -/
def decodeStrict? (raw : List Nat) : Option Text := (decodeUtf8 raw).filter (·.all isScalar)

theorem decodeStrict?_of_encode? {raw : List Nat} (h : encode? t = some raw) :
    decodeStrict? raw = some t := by
  rw [encode?] at h
  split at h
  next hscalar =>
    cases h
    rw [decodeStrict?, decodeUtf8_flatMap hscalar, Option.filter_some, if_pos hscalar]
  next => cases h

/-! ## UTF-16 and UTF-32 -/

/-- The 16-bit units of the bytes. -/
def units16 (bigEndian : Bool) : List Nat → Option (List Nat)
  | [] => some []
  | [_] => none
  | a :: b :: rest =>
    (units16 bigEndian rest).map ((if bigEndian then a * 0x100 + b else b * 0x100 + a) :: ·)

/-- Pairs of surrogates stand for one code point; single ones pass. -/
def joinUnits : List Nat → Text
  | [] => []
  | [a] => [a]
  | a :: b :: rest =>
    if isHigh a && isLow b then join a b :: joinUnits rest else a :: joinUnits (b :: rest)

/-- UTF-16 with `surrogatepass`. -/
def decodeUtf16 (bigEndian : Bool) (bytes : List Nat) : Option Text :=
  (units16 bigEndian bytes).map joinUnits

/-- UTF-32 with `surrogatepass`. -/
def decodeUtf32 (bigEndian : Bool) : List Nat → Option Text
  | [] => some []
  | a :: b :: c :: d :: rest =>
    let n :=
      if bigEndian then a * 0x1000000 + b * 0x10000 + c * 0x100 + d
      else d * 0x1000000 + c * 0x10000 + b * 0x100 + a
    if n < 0x110000 then (decodeUtf32 bigEndian rest).map (n :: ·) else none
  | _ => none

end Text

/-! ## Splitting -/

/-- No piece of a split has the separator in it. -/
theorem notMem_of_mem_splitOn {α : Type} [BEq α] [LawfulBEq α] {c : α} : ∀ {l p : List α},
    p ∈ l.splitOn c → c ∉ p
  | [], p, h => by
    rw [List.splitOn_nil, List.mem_singleton] at h
    simp [h]
  | d :: l, p, h => by
    rw [List.splitOn_cons_eq_if_modifyHead] at h
    split at h
    · rcases List.mem_cons.mp h with rfl | h
      · simp
      · exact notMem_of_mem_splitOn h
    · rename_i hd
      have hdc : c ≠ d := by
        rintro rfl
        exact hd (beq_self_eq_true c)
      have ih : ∀ q ∈ l.splitOn c, c ∉ q := fun q hq => notMem_of_mem_splitOn hq
      cases hs : l.splitOn c with
      | nil => exact absurd hs (List.splitOn_ne_nil c l)
      | cons q qs =>
        rw [hs] at h ih
        rw [List.modifyHead_cons] at h
        rcases List.mem_cons.mp h with rfl | h
        · rw [List.mem_cons, not_or]
          exact ⟨hdc, ih q List.mem_cons_self⟩
        · exact ih p (List.mem_cons_of_mem _ h)

variable {α : Type}

/-- What is split into two parts is the two parts. -/
theorem append_of_splitOn [BEq α] [LawfulBEq α] {c : α} {l a b : List α}
    (h : l.splitOn c = [a, b]) : l = a ++ c :: b := by
  have hjoin : List.intercalate [c] (l.splitOn c) = l := List.intercalate_splitOn c
  rw [h] at hjoin
  rw [← hjoin]
  simp [List.intercalate]

theorem intercalate_cons_cons {d : α} (p q : List α) (qs : List (List α)) :
    List.intercalate [d] (p :: q :: qs) = p ++ d :: List.intercalate [d] (q :: qs) := by
  simp [List.intercalate, List.intersperse]

theorem intercalate_singleton {d : α} (p : List α) : List.intercalate [d] [p] = p := by
  simp [List.intercalate]

/-- The first character of joined parts is the first of the first part. -/
theorem head?_intercalate {d : α} {p : List α} (hp : p ≠ []) (ps : List (List α)) :
    (List.intercalate [d] (p :: ps)).head? = p.head? := by
  cases ps with
  | nil => rw [intercalate_singleton]
  | cons q qs =>
    rw [intercalate_cons_cons]
    cases p with
    | nil => exact absurd rfl hp
    | cons c p => rfl

/-- Joined parts have no other characters than the parts and the separator. -/
theorem mem_intercalate {α : Type} {d : α} : ∀ {parts : List (List α)} {c : α},
    c ∈ List.intercalate [d] parts → c = d ∨ ∃ p ∈ parts, c ∈ p
  | [], c, h => absurd h (by simp [List.intercalate, List.intersperse])
  | [p], c, h => by
    rw [intercalate_singleton] at h
    exact .inr ⟨p, List.mem_cons_self, h⟩
  | p :: q :: qs, c, h => by
    rw [intercalate_cons_cons, List.mem_append, List.mem_cons] at h
    rcases h with h | h | h
    · exact .inr ⟨p, List.mem_cons_self, h⟩
    · exact .inl h
    · rcases mem_intercalate h with h | ⟨r, hr, h⟩
      · exact .inl h
      · exact .inr ⟨r, List.mem_cons_of_mem _ hr, h⟩

/-- Every character of a part is one of the joined parts. -/
theorem mem_intercalate_of_mem {separator p : List α} {c : α} {parts : List (List α)}
    (hp : p ∈ parts) (hc : c ∈ p) : c ∈ List.intercalate separator parts := by
  induction parts with
  | nil => cases hp
  | cons q parts ih =>
    cases parts with
    | nil =>
      rw [List.mem_singleton.mp hp] at hc
      simpa [List.intercalate] using hc
    | cons r parts =>
      have hsplit : List.intercalate separator (q :: r :: parts) =
          q ++ separator ++ List.intercalate separator (r :: parts) := by
        simp [List.intercalate, List.intersperse]
      rw [hsplit]
      rcases List.mem_cons.mp hp with rfl | hp
      · exact List.mem_append_left _ (List.mem_append_left _ hc)
      · exact List.mem_append_right _ (ih hp)

/-- A character of a text is the separator or one of a piece. -/
theorem mem_splitOn [BEq α] [LawfulBEq α] {c d : α} {l : List α} (h : c ∈ l) :
    c = d ∨ ∃ p ∈ l.splitOn d, c ∈ p := by
  have hjoin : [d].intercalate (l.splitOn d) = l := List.intercalate_splitOn d
  rw [← hjoin] at h
  exact mem_intercalate h

/-! ## Lists read element by element -/

/-- What was rendered element by element is read back element by element. -/
theorem mapM_map_of_inverse {β : Type} {f : β → Option α} {g : α → β} {l : List α}
    (hl : ∀ a ∈ l, f (g a) = some a) : (l.map g).mapM f = some l := by
  induction l with
  | nil => rfl
  | cons a l ih =>
    have ha := hl a List.mem_cons_self
    have hrest := ih fun b hb => hl b (List.mem_cons_of_mem a hb)
    simp only [List.map_cons, List.mapM_cons, ha, hrest, Option.bind_eq_bind, Option.bind_some,
      Option.pure_def]

/-- What is read element by element is as long as the list, and each side has what the other
has. -/
theorem of_mapM {β : Type} {f : α → Option β} {l : List α} {r : List β} (h : l.mapM f = some r) :
    r.length = l.length ∧ (∀ a ∈ l, ∃ b ∈ r, f a = some b) ∧ ∀ b ∈ r, ∃ a ∈ l, f a = some b := by
  induction l generalizing r with
  | nil =>
    obtain rfl : [] = r := by simpa using h
    exact ⟨rfl, by simp, by simp⟩
  | cons a l ih =>
    rw [List.mapM_cons] at h
    obtain ⟨b, hb, h⟩ := Option.bind_eq_some_iff.mp h
    obtain ⟨bs, hbs, h⟩ := Option.bind_eq_some_iff.mp h
    cases h
    obtain ⟨hlength, hleft, hright⟩ := ih hbs
    refine ⟨by simp only [List.length_cons, hlength], ?_, ?_⟩
    · intro x hx
      rcases List.mem_cons.mp hx with rfl | hx
      · exact ⟨b, List.mem_cons_self, hb⟩
      · obtain ⟨y, hy, hf⟩ := hleft x hx
        exact ⟨y, List.mem_cons_of_mem b hy, hf⟩
    · intro y hy
      rcases List.mem_cons.mp hy with rfl | hy
      · exact ⟨a, List.mem_cons_self, hb⟩
      · obtain ⟨x, hx, hf⟩ := hright y hy
        exact ⟨x, List.mem_cons_of_mem a hx, hf⟩

/-- A list is read element by element. -/
theorem mapM_eq_some_iff {β : Type} {f : α → Option β} {R : α → β → Prop}
    (h : ∀ a b, f a = some b ↔ R a b) {l : List α} {m : List β} :
    l.mapM f = some m ↔ List.Forall₂ R l m := by
  induction l generalizing m with
  | nil =>
    rw [List.mapM_nil, List.forall₂_nil_left_iff]
    exact ⟨fun hm => (Option.some.inj hm).symm, fun hm => hm ▸ rfl⟩
  | cons a l ih =>
    rw [List.mapM_cons, List.forall₂_cons_left_iff]
    constructor
    · intro hm
      obtain ⟨b, hb, hm⟩ := Option.bind_eq_some_iff.mp hm
      obtain ⟨bs, hbs, hm⟩ := Option.bind_eq_some_iff.mp hm
      exact ⟨b, bs, (h a b).mp hb, ih.mp hbs, (Option.some.inj hm).symm⟩
    · rintro ⟨b, bs, hb, hbs, rfl⟩
      rw [(h a b).mpr hb, ih.mpr hbs]
      rfl

theorem exists_of_mem_left {β : Type} {R : α → β → Prop} {l : List α} {m : List β}
    (h : List.Forall₂ R l m) {a : α} (ha : a ∈ l) : ∃ b, R a b := by
  induction h with
  | nil => cases ha
  | cons hab h ih =>
    obtain rfl | ha := List.mem_cons.mp ha
    · exact ⟨_, hab⟩
    · exact ih ha

end Library
end OpenstackPlatform
