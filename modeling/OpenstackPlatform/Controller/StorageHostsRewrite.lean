import OpenstackPlatform.Controller.StorageHosts

/-!
# What the readers find after the rewriting

A job whose Docker configuration stands after its marker block, with its `extra_hosts` lines after
its image, is changed in two places: the hash of the block, and the lines after the image.  No match
of a reader has anything of the one, and no match goes from before the image's line end to after it.

* `IsBlock.tail`, `IsBlock.not_image`, `IsBlock.not_meta`: what stands in a marker block.
* `Sealing`, `Unhashed`: the patterns that the two changes do not matter to; `search_tail`,
  `search_rewritten`.
-/

namespace OpenstackPlatform
namespace Controller

open Library Library.Hcl Validation

/-! ## Neighbours in a block -/

def isBlank (c : Char) : Bool := c == ' '

def isBrace (c : Char) : Bool := c == '\x7b'

def isLineEnd (c : Char) : Bool := c == '\n'

/-- A character that is no space, as a kind of character. -/
def isLetter (letter c : Char) : Bool := c == letter

variable {letter : Char}

theorem isLetter_false {c : Char} (h : c ≠ letter) : isLetter letter c = false := by
  simpa [isLetter] using h

theorem isLetter_of_isSpace {c : Char} (hletter : isSpace letter = false) (hc : isSpace c = true) :
    isLetter letter c = false := by
  refine isLetter_false ?_
  rintro rfl
  rw [hletter] at hc
  cases hc

/-- Characters other than a letter. -/
theorem letters_false {t : List Char} (h : letter ∉ t) : ∀ c ∈ t, isLetter letter c = false := by
  intro c hc
  refine isLetter_false ?_
  rintro rfl
  exact h hc

variable {v : String} {s : List Char}

/-- A letter that does not follow a blank in the key of a setting, and is not in its value. -/
theorem IsSetting.unpaired_letter {key : String} {valid : String → Bool}
    (h : IsSetting key valid v s) (hspace : isSpace letter = false) (hequal : letter ≠ '=')
    (hquote : letter ≠ '"') (hkey : Unpaired isBlank (isLetter letter) ("    " ++ key).toList)
    (hv : letter ∉ v.toList) : Unpaired isBlank (isLetter letter) s := by
  obtain ⟨w, w', hw, hw', -, -, rfl⟩ := h
  have hline : letter ≠ '\n' := by
    rintro rfl
    cases hspace
  refine hkey.append (unpaired_of_right fun c hc => ?_)
  simp only [List.mem_append, List.mem_cons, List.not_mem_nil, or_false] at hc
  obtain hc | rfl | hc | rfl | hc | rfl | rfl := hc
  · exact isLetter_of_isSpace hspace (hw c hc)
  · exact isLetter_false hequal.symm
  · exact isLetter_of_isSpace hspace (hw' c hc)
  · exact isLetter_false hquote.symm
  · exact letters_false hv c hc
  · exact isLetter_false hquote.symm
  · exact isLetter_false hline.symm

/-- No brace stands at the end of a line of a setting. -/
theorem IsSetting.unpaired_brace {key : String} {valid : String → Bool}
    (h : IsSetting key valid v s) (hkey : ∀ c ∈ key.toList, isBrace c = false) :
    Unpaired isBrace isLineEnd s := by
  obtain ⟨w, w', hw, hw', ⟨-, hline⟩, -, rfl⟩ := h
  have hspace : ∀ c, isSpace c = true → isBrace c = false := by
    intro c hc
    rw [isBrace, beq_eq_false_iff_ne]
    rintro rfl
    cases hc
  have hsplit : ("    " ++ key).toList ++ (w ++ '=' :: (w' ++ '"' :: (v.toList ++ ['"', '\n']))) =
      (' ' :: ("   ".toList ++ (key.toList ++ (w ++ '=' :: (w' ++ ['"']))))) ++
        (v.toList ++ ['"', '\n']) := by
    rw [String.toList_append]
    simp
  rw [hsplit]
  refine (unpaired_of_left (fun c hc => ?_) fun d hd => ?_).append
    ((unpaired_of_right fun c hc => ?_).append ⟨by decide, by decide⟩)
  · simp only [List.mem_append, List.mem_cons, List.not_mem_nil, or_false] at hc
    obtain rfl | hc | hc | hc | rfl | hc | rfl := hc
    · decide
    · exact (by decide : ∀ c ∈ "   ".toList, isBrace c = false) c hc
    · exact hkey c hc
    · exact hspace c (hw c hc)
    · decide
    · exact hspace c (hw' c hc)
    · decide
  · obtain rfl : ' ' = d := Option.some.inj hd
    decide
  · rw [isLineEnd, beq_eq_false_iff_ne]
    rintro rfl
    exact hline hc

/-- Hexadecimal digits and the characters of IDs are few. -/
theorem notMem_of_isSha256Hex (hletter : isHexLower letter = false) (h : isSha256Hex v = true) :
    letter ∉ v.toList := by
  rw [isSha256Hex, Bool.and_eq_true, List.all_eq_true] at h
  intro hm
  rw [h.2 _ hm] at hletter
  cases hletter

theorem notMem_of_isCommit (hletter : isHexLower letter = false) (h : isCommit v = true) :
    letter ∉ v.toList := by
  rw [isCommit, Bool.and_eq_true, List.all_eq_true] at h
  intro hm
  rw [h.2 _ hm] at hletter
  cases hletter

theorem notMem_of_isRouteField (hletter : Helper.isIdChar letter = false)
    (h : isRouteField v = true) : letter ∉ v.toList := by
  rw [isRouteField, Bool.and_eq_true, List.all_eq_true] at h
  intro hm
  rw [h.2 _ hm] at hletter
  cases hletter

theorem blockStart_eq : blockStart = Helper.metaLine ++ ['\n'] := rfl

theorem metaLine_eq : Helper.metaLine = "  meta ".toList ++ ['\x7b'] := rfl

variable {id : String × String}

/-- After its first line a block has no brace at the end of a line. -/
theorem IsBlock.tail {b : List Char} (h : IsBlock b id) :
    ∃ m, b = Helper.metaLine ++ '\n' :: m ∧ noPair isBrace isLineEnd m = true := by
  obtain ⟨s₁, s₂, s₃, s₄, s₅, c, r, hs₁, hs₂, hs₃, hs₄, hs₅, rfl⟩ := h
  have hmarker : Unpaired isBrace isLineEnd s₃ := by
    obtain rfl | ⟨m, hm⟩ := hs₃
    · exact unpaired_nil _ _
    · exact hm.unpaired_brace (by decide)
  have hend : Unpaired isBrace isLineEnd blockEnd := ⟨by decide, by decide⟩
  have hall := (hs₁.unpaired_brace (by decide)).append ((hs₂.unpaired_brace (by decide)).append
    (hmarker.append ((hs₄.unpaired_brace (by decide)).append
      ((hs₅.unpaired_brace (by decide)).append hend))))
  refine ⟨_, ?_, hall.1⟩
  rw [blockStart_eq, List.append_assoc, List.singleton_append]

/-- A block begins with its first line, and has it nowhere else. -/
theorem IsBlock.not_meta {b : List Char} (h : IsBlock b id) (hs : s ≠ []) :
    ¬ (s ++ (Helper.metaLine ++ ['\n'])) <+: b := by
  obtain ⟨m, rfl, hm⟩ := h.tail
  rintro ⟨t, ht⟩
  have hmeta : '\n' ∉ Helper.metaLine := by decide
  by_cases hline : '\n' ∈ s
  · obtain ⟨s₁, s₂, rfl, hs₁⟩ := List.eq_append_cons_of_mem hline
    have hfirst : s₁ ++ '\n' :: (s₂ ++ "  meta ".toList ++ '\x7b' :: '\n' :: t) =
        Helper.metaLine ++ '\n' :: m := by
      rw [← ht, metaLine_eq]
      simp only [List.append_assoc, List.cons_append, List.nil_append]
    obtain ⟨-, rfl⟩ := append_cons_inj hs₁ hmeta hfirst
    cases not_pair_of_noPair hm
  · have hfirst : (s ++ Helper.metaLine) ++ '\n' :: t = Helper.metaLine ++ '\n' :: m := by
      rw [← ht]
      simp only [List.append_assoc, List.cons_append, List.nil_append]
    have hline' : '\n' ∉ s ++ Helper.metaLine := by
      rw [List.mem_append, not_or]
      exact ⟨hline, hmeta⟩
    obtain ⟨heq, -⟩ := append_cons_inj hline' hmeta hfirst
    exact hs (List.append_left_eq_self.mp heq)

/-- The end of a Docker image's key, in the line that `storage_hosts_job` looks for. -/
def imagePiece : List Char := " image           = \"".toList

/-- The last character of a marked image is that of its digest. -/
theorem blank_not_last {x : List Char} (h : Helper.isMarkedImage v = true) :
    v.toList ≠ x ++ [' '] := by
  intro hv
  simp only [Helper.isMarkedImage, Bool.and_eq_true, decide_eq_true_eq, List.all_eq_true] at h
  obtain ⟨⟨hlength, -⟩, hdigest⟩ := h
  rw [List.drop_drop] at hdigest
  rw [hv] at hlength hdigest
  have hmem : ' ' ∈ (x ++ [' ']).drop ((x ++ [' ']).length - 72 + 8) := by
    rw [List.length_append, List.length_singleton] at hlength ⊢
    rw [List.drop_append_of_le_length (by omega)]
    exact List.mem_append_right _ List.mem_cons_self
  cases hdigest _ hmem

/-- A key of a block in which no letter follows a blank. -/
theorem unpaired_key {key : String}
    (h : noPair isBlank (isLetter letter) ("    " ++ key).toList = true) (hletter : letter ≠ ' ') :
    Unpaired isBlank (isLetter letter) ("    " ++ key).toList := by
  refine ⟨h, fun d hd => ?_⟩
  rw [String.toList_append] at hd
  obtain rfl : ' ' = d := Option.some.inj hd
  exact isLetter_false hletter.symm

/-- No block has the line of a Docker image in it. -/
theorem IsBlock.not_image {b : List Char} (h : IsBlock b id) : ¬ imagePiece <:+: b := by
  obtain ⟨s₁, s₂, s₃, s₄, s₅, c, r, hs₁, ⟨w, w', hw, hw', ⟨hquote, -⟩, himage, rfl⟩, hs₃, hs₄, hs₅,
    rfl⟩ := h
  rintro ⟨a, t, ht⟩
  have hsetting : ∀ {key : String} {valid : String → Bool} {v : String} {s : List Char},
      IsSetting key valid v s → noPair isBlank (isLetter 'i') ("    " ++ key).toList = true →
        'i' ∉ v.toList → Unpaired isBlank (isLetter 'i') s := fun hs hkey hv =>
    hs.unpaired_letter (by decide) (by decide) (by decide) (unpaired_key hkey (by decide)) hv
  have hmarker : Unpaired isBlank (isLetter 'i') s₃ := by
    obtain rfl | ⟨m, hm⟩ := hs₃
    · exact unpaired_nil _ _
    · exact hsetting hm (by decide) (notMem_of_isRouteField (by decide) hm.valid)
  have hspaces : ∀ c ∈ w ++ '=' :: w', isLetter 'i' c = false := by
    intro c hc
    rw [List.mem_append, List.mem_cons] at hc
    obtain hc | rfl | hc := hc
    · exact isLetter_of_isSpace (by decide) (hw c hc)
    · decide
    · exact isLetter_of_isSpace (by decide) (hw' c hc)
  have hbefore : Unpaired isBlank (isLetter 'i') (blockStart ++ (s₁ ++
      (("    " ++ "platform_candidate_image").toList ++ (w ++ '=' :: w')))) :=
    Unpaired.append ⟨by decide, by decide⟩
      ((hsetting hs₁ (by decide) (notMem_of_isSha256Hex (by decide) hs₁.valid)).append
        ((unpaired_key (by decide) (by decide)).append (unpaired_of_right hspaces)))
  have hafter : Unpaired isBlank (isLetter 'i') ('\n' :: (s₃ ++ (s₄ ++ (s₅ ++ blockEnd)))) :=
    Unpaired.append (s := ['\n']) ⟨by decide, by decide⟩ (hmarker.append
      ((hsetting hs₄ (by decide) (notMem_of_isCommit (by decide) hs₄.valid)).append
        ((hsetting hs₅ (by decide) (notMem_of_isSha256Hex (by decide) hs₅.valid)).append
          ⟨by decide, by decide⟩)))
  have hpiece : imagePiece = ' ' :: 'i' :: ("mage           = ".toList ++ ['"']) := by rfl
  have hwhole : a ++ ' ' :: 'i' :: ("mage           = ".toList ++ '"' :: t) =
      ("  meta \x7b\n".toList ++ (s₁ ++ (("    " ++ "platform_candidate_image").toList ++
        (w ++ '=' :: w')))) ++ '"' :: (id.2.toList ++ '"' ::
          ('\n' :: (s₃ ++ (s₄ ++ (s₅ ++ blockEnd))))) := by
    rw [hpiece] at ht
    simp only [List.append_assoc, List.cons_append, List.nil_append] at ht ⊢
    exact ht
  obtain ⟨b, u, hv, hu⟩ := pair_in_quoted hbefore.1 hafter.1 (by decide) (by decide) (by decide)
    (by decide) hwhole
  have hquote' : '"' ∉ u := by
    intro hm
    refine hquote ?_
    rw [hv]
    exact List.mem_append_right _ (List.mem_cons_of_mem _ (List.mem_cons_of_mem _ hm))
  obtain ⟨rfl, -⟩ := append_cons_inj (by decide) hquote' hu
  have hlast : "mage           = ".toList = "mage           =".toList ++ [' '] := by rfl
  rw [hlast] at hv
  refine blank_not_last (x := b ++ ' ' :: 'i' :: "mage           =".toList) himage ?_
  rw [hv]
  simp only [List.append_assoc, List.cons_append]

/-! ## The line of the image -/

/-- The key of an image, as `storage_hosts_job` looks for it. -/
def imageKey : List Char := "        image           = ".toList

/-- The line of an image. -/
def imageLine (image : List Char) : List Char := imageKey ++ '"' :: (image ++ ['"'])

theorem imageKey_eq : imageKey ++ ['"'] = "       ".toList ++ imagePiece := rfl

theorem oneLine_imageLine {image : List Char} (h : '\n' ∉ image) : '\n' ∉ imageLine image := by
  rw [imageLine, List.mem_append, List.mem_cons, List.mem_append, not_or, not_or, not_or]
  exact ⟨by decide, by decide, h, by decide⟩

theorem imagePiece_isInfix (image r : List Char) : imagePiece <:+: imageLine image ++ r := by
  have hline : imageLine image ++ r = (imageKey ++ ['"']) ++ (image ++ '"' :: r) := by
    rw [imageLine]
    simp only [List.append_assoc, List.cons_append, List.nil_append]
  rw [hline, imageKey_eq]
  exact ⟨"       ".toList, image ++ '"' :: r, rfl⟩

/-! ## The lines after the image -/

section Sealing

variable {α : Type} {f : List Char → Option α} {M : List Char → α → Prop}

/-- A pattern of which no match goes from before the end of an image's line to after it, and which
finds nothing in an ordinary line. -/
structure Sealing (f : List Char → Option α) (M : List Char → α → Prop) : Prop where
  pattern : IsPattern f M
  notImage : ∀ m a, M m a → ¬ imagePiece <:+: m
  inImage : ∀ {image l : List Char}, '"' ∉ image → '\n' ∉ image → l <:+ imageLine image →
    ∀ r r', f (l ++ '\n' :: r) = f (l ++ '\n' :: r')
  ordinary : ∀ {l s : List Char}, '\n' ∉ l → Ordinary l → s <:+ l → ∀ r, f (s ++ '\n' :: r) = none

/-- Nothing is found in ordinary lines. -/
theorem Sealing.search_lines (h : Sealing f M) (t : List Char) : ∀ {ls : List (List Char)},
    (∀ l ∈ ls, '\n' ∉ l ∧ Ordinary l) →
      (joinLines ls ++ t).tails.filterMap f = t.tails.filterMap f
  | [], _ => rfl
  | l :: ls, hls => by
    obtain ⟨hline, hordinary⟩ := hls l List.mem_cons_self
    have hnone : (l.tails.filterMap fun s => f (s ++ '\n' :: (joinLines ls ++ t))) = [] :=
      List.filterMap_eq_nil_iff.mpr fun s hs =>
        h.ordinary hline hordinary ((List.mem_tails s l).mp hs) _
    rw [joinLines_cons, List.append_assoc, List.cons_append, search_line, hnone, List.nil_append,
      h.search_lines t fun l' hl' => hls l' (List.mem_cons_of_mem _ hl')]

/-- Other ordinary lines after the image change nothing. -/
theorem Sealing.search_tail (h : Sealing f M) {z image after : List Char}
    {hosts hosts' : List (List Char)} (hquote : '"' ∉ image) (hline : '\n' ∉ image)
    (hhosts : ∀ l ∈ hosts, '\n' ∉ l ∧ Ordinary l) (hhosts' : ∀ l ∈ hosts', '\n' ∉ l ∧ Ordinary l) :
    (z ++ (imageLine image ++ '\n' :: (joinLines hosts ++ after))).tails.filterMap f =
      (z ++ (imageLine image ++ '\n' :: (joinLines hosts' ++ after))).tails.filterMap f := by
  have hassoc : ∀ r : List Char, z ++ (imageLine image ++ '\n' :: r) =
      (z ++ (imageLine image ++ ['\n'])) ++ r := by
    intro r
    simp only [List.append_assoc, List.cons_append, List.nil_append]
  rw [hassoc (joinLines hosts ++ after), hassoc (joinLines hosts' ++ after)]
  refine search_congr (fun s hne hs => ?_)
    ((h.search_lines after hhosts).trans (h.search_lines after hhosts').symm)
  obtain hshort | ⟨x, rfl⟩ := List.suffix_or_suffix_of_suffix hs
    (List.suffix_append z (imageLine image ++ ['\n']))
  · -- the match begins in the line of the image
    obtain rfl | ⟨l, rfl, hl⟩ := List.suffix_concat_iff.mp hshort
    · exact absurd rfl hne
    · rw [List.append_assoc, List.append_assoc]
      exact h.inImage hquote hline hl _ _
  · -- the match begins before it
    refine h.pattern.sealed (fun m a hm hprefix => h.notImage m a hm ?_) _ _
    exact ((imagePiece_isInfix image ['\n']).trans (List.suffix_append x _).isInfix).trans
      hprefix.isInfix

/-! ## The hash -/

/-- The text of a block up to a letter that only the key of its hash has. -/
def keyStart : List Char := "  meta \x7b\n    platform_candidate_".toList

/-- The rest of the key of the hash. -/
def keyEnd : List Char := "ob_sha256".toList

/-- The line of a block's hash, from within its key. -/
def keyField (w w' : List Char) (hash : String) : List Char :=
  keyEnd ++ (w ++ '=' :: (w' ++ '"' :: (hash.toList ++ ['"', '\n'])))

/-- A pattern that also has no match with anything of a block's hash. -/
structure Unhashed (f : List Char → Option α) (M : List Char → α → Prop) : Prop extends
    Sealing f M where
  notKey : ∀ m a, M m a → 'j' ∉ m
  inField : ∀ {w w' : List Char} {hash : String} {s : List Char}, (∀ c ∈ w, isSpace c = true) →
    (∀ c ∈ w', isSpace c = true) → isSha256Hex hash = true → s ≠ [] → s <:+ keyField w w' hash →
      ∀ r, f (s ++ r) = none

theorem hashField_eq (w w' : List Char) (hash : String) (z : List Char) :
    blockHead ++ hashField w w' hash z = keyStart ++ 'j' :: (keyField w w' hash ++ z) := by
  have hhead : blockHead = keyStart ++ 'j' :: keyEnd := by rfl
  rw [hhead, hashField, keyField]
  simp only [List.append_assoc, List.cons_append, List.nil_append]

/-- Another hash, and other lines after the image, change nothing. -/
theorem Unhashed.search_rewritten (h : Unhashed f M) {a w w' z image after : List Char}
    {hash hash' : String} {hosts hosts' : List (List Char)} (hw : ∀ c ∈ w, isSpace c = true)
    (hw' : ∀ c ∈ w', isSpace c = true) (hhash : isSha256Hex hash = true)
    (hhash' : isSha256Hex hash' = true) (hquote : '"' ∉ image) (hline : '\n' ∉ image)
    (hhosts : ∀ l ∈ hosts, '\n' ∉ l ∧ Ordinary l) (hhosts' : ∀ l ∈ hosts', '\n' ∉ l ∧ Ordinary l) :
    (a ++ (blockHead ++ hashField w w' hash
        (z ++ (imageLine image ++ '\n' :: (joinLines hosts ++ after))))).tails.filterMap f =
      (a ++ (blockHead ++ hashField w w' hash'
        (z ++ (imageLine image ++ '\n' :: (joinLines hosts' ++ after))))).tails.filterMap f := by
  have hassoc : ∀ t : List Char, a ++ (keyStart ++ 'j' :: t) = ((a ++ keyStart) ++ ['j']) ++ t := by
    intro t
    simp only [List.append_assoc, List.cons_append, List.nil_append]
  rw [hashField_eq, hashField_eq, hassoc, hassoc]
  refine search_congr (fun s hne hs => ?_) ?_
  · obtain rfl | ⟨l, rfl, -⟩ := List.suffix_concat_iff.mp hs
    · exact absurd rfl hne
    · refine h.pattern.sealed (fun m b hm hprefix => h.notKey m b hm ?_) _ _
      exact hprefix.subset (List.mem_append_right _ List.mem_cons_self)
  · rw [search_of_none fun s hne hs => h.inField hw hw' hhash hne hs _,
      search_of_none fun s hne hs => h.inField hw hw' hhash' hne hs _]
    exact h.search_tail hquote hline hhosts hhosts'

end Sealing

/-! ## The readers' patterns -/

/-- A field of identifier characters between two fixed texts. -/
def IsField (start close : String) (m : List Char) (v : String) : Prop :=
  v.toList.length = 36 ∧ (∀ c ∈ v.toList, Helper.isIdChar c = true) ∧
    m = start.toList ++ (v.toList ++ close.toList)

/-- A route priority. -/
def IsPriority (m : List Char) (n : Nat) : Prop :=
  ∃ digits : List Char, digits ≠ [] ∧ (∀ c ∈ digits, c.isDigit = true) ∧
    n = Helper.decimal digits ∧ m = ".priority=".toList ++ (digits ++ "\",".toList)

theorem routeMarkerAt_pattern :
    IsPattern Helper.routeMarkerAt (IsField "    platform_route_marker = \"" "\"\n") := by
  intro t v
  rw [Helper.routeMarkerAt_eq_some]
  constructor
  · rintro ⟨hlength, hall, r, rfl⟩
    exact ⟨_, r, ⟨hlength, hall, rfl⟩, by simp only [List.append_assoc]⟩
  · rintro ⟨_, r, ⟨hlength, hall, rfl⟩, rfl⟩
    exact ⟨hlength, hall, r, by simp only [List.append_assoc]⟩

theorem placementAt_pattern :
    IsPattern Helper.placementAt (IsField Helper.placementStart "\"") := by
  intro t v
  rw [Helper.placementAt_eq_some]
  constructor
  · rintro ⟨hlength, hall, r, rfl⟩
    exact ⟨_, r, ⟨hlength, hall, rfl⟩, by simp only [List.append_assoc]⟩
  · rintro ⟨_, r, ⟨hlength, hall, rfl⟩, rfl⟩
    exact ⟨hlength, hall, r, by simp only [List.append_assoc]⟩

theorem priorityAt_pattern : IsPattern Helper.priorityAt IsPriority := by
  intro t n
  rw [Helper.priorityAt_eq_some]
  constructor
  · rintro ⟨digits, r, hne, hall, hn, rfl⟩
    exact ⟨_, r, ⟨digits, hne, hall, hn, rfl⟩, by simp only [List.append_assoc]⟩
  · rintro ⟨_, r, ⟨digits, hne, hall, hn, rfl⟩, rfl⟩
    exact ⟨digits, r, hne, hall, hn, by simp only [List.append_assoc]⟩

/-- A letter that does not follow a blank in the fixed texts around a field does not do so at all. -/
theorem IsField.not_image {start close : String} {m : List Char} (h : IsField start close m v)
    (hstart : noPair isBlank (isLetter 'i') start.toList = true)
    (hclose : Unpaired isBlank (isLetter 'i') close.toList) : ¬ imagePiece <:+: m := by
  obtain ⟨-, hall, rfl⟩ := h
  have hvalue : Unpaired isBlank (isLetter 'i') v.toList := by
    refine unpaired_of_right fun c hc => isLetter_false ?_
    rintro rfl
    cases hall _ hc
  have hpair : noPair isBlank (isLetter 'i') (start.toList ++ (v.toList ++ close.toList)) = true :=
    noPair_append hstart (hvalue.append hclose).1 (hvalue.append hclose).2
  exact not_infix_of_noPair (a := []) hpair (by decide) (by decide)

theorem IsField.notMem {start close : String} {m : List Char} (h : IsField start close m v)
    (hstart : letter ∉ start.toList) (hclose : letter ∉ close.toList)
    (hletter : Helper.isIdChar letter = false) : letter ∉ m := by
  obtain ⟨-, hall, rfl⟩ := h
  rw [List.mem_append, List.mem_append, not_or, not_or]
  refine ⟨hstart, fun hm => ?_, hclose⟩
  rw [hall _ hm] at hletter
  cases hletter

/-- No letter follows a blank in the line of a hash. -/
theorem keyField_unpaired {w w' : List Char} {hash : String} (hw : ∀ c ∈ w, isSpace c = true)
    (hw' : ∀ c ∈ w', isSpace c = true) (hhash : isSha256Hex hash = true)
    (hspace : isSpace letter = false) (hequal : letter ≠ '=') (hquote : letter ≠ '"')
    (hfirst : letter ≠ 'o') : Unpaired isBlank (isLetter letter) (keyField w w' hash) := by
  have hmiddle : ∀ c ∈ w ++ '=' :: w', isLetter letter c = false := by
    intro c hc
    rw [List.mem_append, List.mem_cons] at hc
    obtain hc | rfl | hc := hc
    · exact isLetter_of_isSpace hspace (hw c hc)
    · exact isLetter_false hequal.symm
    · exact isLetter_of_isSpace hspace (hw' c hc)
  have hvalue : ∀ c ∈ '"' :: (hash.toList ++ ['"', '\n']), isBlank c = false := by
    intro c hc
    rw [isBlank, beq_eq_false_iff_ne]
    rintro rfl
    simp only [List.mem_cons, List.mem_append, List.not_mem_nil, or_false] at hc
    obtain hc | hc | hc | hc := hc
    · cases hc
    · exact notMem_of_isSha256Hex (by decide) hhash hc
    · cases hc
    · cases hc
  have hsplit : keyField w w' hash = keyEnd ++ ((w ++ '=' :: w') ++
      '"' :: (hash.toList ++ ['"', '\n'])) := by
    rw [keyField]
    simp only [List.append_assoc, List.cons_append]
  rw [hsplit]
  refine (unpaired_of_left (by decide) fun d hd => ?_).append ((unpaired_of_right hmiddle).append
    (unpaired_of_left hvalue fun d hd => ?_))
  · obtain rfl : 'o' = d := Option.some.inj hd
    exact isLetter_false hfirst.symm
  · obtain rfl : '"' = d := Option.some.inj hd
    exact isLetter_false hquote.symm

theorem keyField_last (w w' : List Char) (hash : String) :
    (keyField w w' hash).getLast? = some '\n' := by
  have hsplit : keyField w w' hash =
      (keyEnd ++ (w ++ '=' :: (w' ++ '"' :: (hash.toList ++ ['"'])))) ++ ['\n'] := by
    rw [keyField]
    simp only [List.append_assoc, List.cons_append, List.nil_append]
  rw [hsplit, List.getLast?_concat]

/-- The last character of an end of a text. -/
theorem getLast?_suffix {t : List Char} (h : s <:+ t) (hne : s ≠ []) : s.getLast? = t.getLast? := by
  obtain ⟨u, rfl⟩ := h
  obtain ⟨c, hc⟩ : ∃ c, s.getLast? = some c := ⟨_, List.getLast?_eq_some_getLast hne⟩
  rw [List.getLast?_append, hc, Option.some_or]

/-- A pattern whose matches begin with blanks and a letter begins nowhere in a text in which this
letter follows no blank. -/
theorem none_of_unpaired {α : Type} {f : List Char → Option α} {M : List Char → α → Prop}
    (hf : IsPattern f M) (letter : Char) (n : Nat)
    (hstart : ∀ m a, M m a → ∃ l, m = ' ' :: (List.replicate n ' ' ++ letter :: l))
    {t : List Char} (ht : noPair isBlank (isLetter letter) t = true) (hlast : t.getLast? = some '\n')
    (hne : s ≠ []) (hs : s <:+ t) (r : List Char) : f (s ++ r) = none := by
  by_contra hsome
  obtain ⟨a, ha⟩ := Option.ne_none_iff_exists'.mp hsome
  obtain ⟨m, u, hm, hwhole⟩ := (hf _ _).mp ha
  obtain ⟨l, rfl⟩ := hstart m a hm
  have hpair : noPair isBlank (isLetter letter) s = true := by
    obtain ⟨v, rfl⟩ := hs
    exact noPair_suffix ht
  have hblank : s.getLast? ≠ some ' ' := by
    rw [getLast?_suffix hs hne, hlast]
    decide
  exact not_blanks_prefix (p := isBlank) (by decide) (by simp [isLetter]) hne hpair hblank
    ⟨u, hwhole.symm⟩

theorem notSuffix_imageLine {image l : List Char} (hquote : '"' ∉ image) (hl : l <:+ imageLine image) :
    l ≠ Helper.placementLine ∧ l ≠ Helper.metaLine := by
  constructor
  · rintro rfl
    rw [placementLine_eq, imageLine] at hl
    exact absurd (suffix_quoted hquote (by decide) hl).1 (by decide)
  · rintro rfl
    refine not_suffix_of_last (by decide) ?_ hl
    rw [imageLine, ← List.cons_append, ← List.append_assoc, List.getLast?_concat]
    decide

/-- A pattern that stays in one line. -/
theorem sealing_of_lineLocal {α : Type} {f : List Char → Option α} {M : List Char → α → Prop}
    (hf : IsPattern f M) (hlocal : LineLocal f) (himage : ∀ m a, M m a → ¬ imagePiece <:+: m)
    (hordinary : ∀ l, Ordinary l → lineMatches f l = []) : Sealing f M := by
  refine ⟨hf, himage, fun {image l} _ hline hl r r' => ?_, fun {l s} hline hl hs r => ?_⟩
  · have hl' : '\n' ∉ l := fun hm => oneLine_imageLine hline (hl.subset hm)
    rw [hlocal l r hl', hlocal l r' hl']
  · rw [hlocal s r fun hm => hline (hs.subset hm)]
    exact List.filterMap_eq_nil_iff.mp (hordinary l hl) s ((List.mem_tails s l).mpr hs)

/-- A pattern with a fixed first line. -/
theorem sealing_of_startsWith {α : Type} {f : List Char → Option α} {M : List Char → α → Prop}
    (hf : IsPattern f M) {first : List Char} (hstart : StartsWith first f)
    (himage : ∀ m a, M m a → ¬ imagePiece <:+: m)
    (hline : ∀ {image l}, '"' ∉ image → l <:+ imageLine image → l ≠ first)
    (hordinary : ∀ l, Ordinary l → ¬ first <:+ l) : Sealing f M := by
  refine ⟨hf, himage, fun {image l} hquote hend hl r r' => ?_, fun {l s} hend hl hs r => ?_⟩
  · have hl' : '\n' ∉ l := fun hm => oneLine_imageLine hend (hl.subset hm)
    rw [hstart l r hl' (hline hquote hl), hstart l r' hl' (hline hquote hl)]
  · refine hstart s r (fun hm => hend (hs.subset hm)) ?_
    rintro rfl
    exact hordinary l hl hs

theorem priorityAt_unhashed : Unhashed Helper.priorityAt IsPriority := by
  refine ⟨sealing_of_lineLocal priorityAt_pattern Helper.priorityAt_lineLocal ?_
    fun l hl => hl.priority, ?_, ?_⟩
  · rintro m n ⟨digits, -, hall, -, rfl⟩ hpiece
    have hblank := hpiece.subset (show ' ' ∈ imagePiece by decide)
    simp only [List.mem_append] at hblank
    obtain hm | hm | hm := hblank
    · exact absurd hm (by decide)
    · cases hall _ hm
    · exact absurd hm (by decide)
  · rintro m n ⟨digits, -, hall, -, rfl⟩ hm
    simp only [List.mem_append] at hm
    obtain hm | hm | hm := hm
    · exact absurd hm (by decide)
    · cases hall _ hm
    · exact absurd hm (by decide)
  · intro w w' hash s hw hw' hhash hne hs r
    by_contra hsome
    obtain ⟨n, hn⟩ := Option.ne_none_iff_exists'.mp hsome
    obtain ⟨_, t, ⟨digits, -, -, -, rfl⟩, hwhole⟩ := (priorityAt_pattern _ _).mp hn
    cases s with
    | nil => exact hne rfl
    | cons c s =>
      obtain rfl : c = '.' := (List.cons.inj hwhole).1
      have hdot := hs.subset List.mem_cons_self
      simp only [keyField, List.mem_append, List.mem_cons, List.not_mem_nil, or_false] at hdot
      obtain hm | hm | hm | hm | hm | hm | hm | hm := hdot
      · exact absurd hm (by decide)
      · cases hw _ hm
      · cases hm
      · cases hw' _ hm
      · cases hm
      · exact notMem_of_isSha256Hex (by decide) hhash hm
      · cases hm
      · cases hm

theorem routeMarkerAt_unhashed :
    Unhashed Helper.routeMarkerAt (IsField "    platform_route_marker = \"" "\"\n") := by
  refine ⟨sealing_of_lineLocal routeMarkerAt_pattern Helper.routeMarkerAt_lineLocal ?_
    fun l hl => hl.marker, ?_, ?_⟩
  · exact fun m v hm => hm.not_image (by decide) ⟨by decide, by decide⟩
  · exact fun m v hm => hm.notMem (by decide) (by decide) (by decide)
  · intro w w' hash s hw hw' hhash hne hs r
    refine none_of_unpaired routeMarkerAt_pattern 'p' 3 ?_ (keyField_unpaired hw hw' hhash (by decide)
      (by decide) (by decide) (by decide)).1 (keyField_last _ _ _) hne hs r
    rintro m v ⟨-, -, rfl⟩
    exact ⟨_, rfl⟩

theorem placementAt_unhashed :
    Unhashed Helper.placementAt (IsField Helper.placementStart "\"") := by
  refine ⟨sealing_of_startsWith placementAt_pattern Helper.placementAt_startsWith ?_
    (fun hquote hl => (notSuffix_imageLine hquote hl).1) fun l hl => hl.placement, ?_, ?_⟩
  · exact fun m v hm => hm.not_image (by decide) ⟨by decide, by decide⟩
  · exact fun m v hm => hm.notMem (by decide) (by decide) (by decide)
  · intro w w' hash s hw hw' hhash hne hs r
    refine none_of_unpaired placementAt_pattern 'a' 3 ?_ (keyField_unpaired hw hw' hhash (by decide)
      (by decide) (by decide) (by decide)).1 (keyField_last _ _ _) hne hs r
    rintro m v ⟨-, -, rfl⟩
    exact ⟨_, rfl⟩

theorem identityAt_startsWith : StartsWith Helper.metaLine identityAt := by
  intro s r hs hne
  rw [identityAt, Helper.markerAt_startsWith s r hs hne]
  rfl

theorem identityAt_sealing : Sealing identityAt IsBlock :=
  sealing_of_startsWith identityAt_pattern identityAt_startsWith (fun _ _ hm => hm.not_image)
    (fun hquote hl => (notSuffix_imageLine hquote hl).2) fun _ hl => hl.block

end Controller
end OpenstackPlatform
