import Mathlib
import OpenstackPlatform.Controller.NomadJobs

/-!
# Owner text in a job

Nomad reads a job as HCL.  The job is meant to say what its template says, each value in the string
or in the word it stands in.  `InertOwnerText` is this as one property of a rendered text: no text of
the owner ends a string or starts a template, the job is read as it is meant, and its structure is a
function of the deployment and of the numbers of the entries.

Every other text is plain: slugs, names of storage and of variables have their own alphabets.  A
health path is checked for what a URL may not have, but not for quotes and template sequences, and
the property holds exactly when it has none.

* `IsPlain`: the characters of checked names, with one lemma for each check.
* `Job.tokens`, `jobShape`: what a job is meant to say, and its structure.
* `PlainJob`, `read_text`, `plainJob_of_build`: an accepted job is read as it is meant.
* `inertOwnerText_iff`: the main result.
-/

namespace OpenstackPlatform
namespace Controller

open Library Library.Hcl Validation

/-! ## Plain names -/

/-- The characters of checked names. -/
def isPlainChar (c : Char) : Bool :=
  isAlnum c || c == '-' || c == '_' || c == '.' || c == ' ' || c == ':' || c == '/'

/-- A text of the characters of names. -/
structure IsPlain (s : String) : Prop where
  nonempty : s.toList ≠ []
  chars : ∀ c ∈ s.toList, isPlainChar c = true

variable {s : String}

theorem IsPlain.ne (h : IsPlain s) {d : Char} (hd : isPlainChar d = false) :
    d ∉ s.toList := fun hmem => absurd ((h.chars d hmem).symm.trans hd) (by decide)

theorem IsPlain.plainText (h : IsPlain s) : PlainText s.toList where
  nonempty := h.nonempty
  quote := h.ne (by decide)
  backslash := h.ne (by decide)
  newline := h.ne (by decide)
  sigil c hc := by
    rw [isSigil, Bool.or_eq_false_iff, beq_eq_false_iff_ne, beq_eq_false_iff_ne]
    constructor
    · rintro rfl
      exact h.ne (by decide) hc
    · rintro rfl
      exact h.ne (by decide) hc

variable {c : Char}

theorem printable_of_isPlainChar (h : isPlainChar c = true) : 32 ≤ c.toNat ∧ c.toNat < 127 := by
  have hle : ∀ a b : Char, a ≤ b ↔ a.toNat ≤ b.toNat := fun a b => by
    rw [Char.le_def, UInt32.le_iff_toNat_le]
    rfl
  simp only [isPlainChar, isAlnum, isLowerAlnum, Char.isUpper, Char.isDigit, Char.isLower,
    Bool.or_eq_true, Bool.and_eq_true, decide_eq_true_eq, beq_iff_eq, UInt32.le_iff_toNat_le] at h
  rcases h with (((((((h | h | h) | rfl) | rfl) | rfl) | rfl) | rfl) | rfl)
  · exact ⟨le_trans (by decide) h.1, lt_of_le_of_lt h.2 (by decide)⟩
  · exact ⟨le_trans (by decide) h.1, lt_of_le_of_lt h.2 (by decide)⟩
  · exact ⟨le_trans (by decide) h.1, lt_of_le_of_lt h.2 (by decide)⟩
  all_goals decide

theorem IsPlain.printable (h : IsPlain s) :
    ∀ c ∈ s.toList, 32 ≤ c.toNat ∧ c.toNat < 127 := fun c hc =>
  printable_of_isPlainChar (h.chars c hc)

theorem IsPlain.append {t : String} (hs : IsPlain s) (ht : IsPlain t) : IsPlain (s ++ t) where
  nonempty h := by
    rw [String.toList_append] at h
    exact hs.nonempty (List.append_eq_nil_iff.mp h).1
  chars c hc := by
    rw [String.toList_append] at hc
    exact (List.mem_append.mp hc).elim (hs.chars c) (ht.chars c)

theorem isPlainChar_of_isAlnum (h : isAlnum c = true) : isPlainChar c = true := by
  simp [isPlainChar, h]

theorem isAlnum_of_isLowerAlnum (h : isLowerAlnum c = true) : isAlnum c = true := by
  rw [isAlnum, h, Bool.or_true]

theorem isPlainChar_of_lower (h : (isLowerAlnum c || c == '-') = true) : isPlainChar c = true := by
  obtain h | h := Bool.or_eq_true_iff.mp h
  · exact isPlainChar_of_isAlnum (isAlnum_of_isLowerAlnum h)
  · simp [isPlainChar, h]

theorem isLowerAlnum_of_isHexLower (h : isHexLower c = true) : isLowerAlnum c = true := by
  simp only [isHexLower, isLowerAlnum, Bool.or_eq_true, Bool.and_eq_true, decide_eq_true_eq] at h ⊢
  refine h.imp id fun h => ?_
  have hz : 'f'.val ≤ 'z'.val := by decide
  rw [Char.isLower, Bool.and_eq_true, decide_eq_true_eq, decide_eq_true_eq]
  exact ⟨h.1, UInt32.le_trans h.2 hz⟩

/-- A text whose first character and whose other characters were checked. -/
theorem IsPlain.of_cons {cs : List Char} (hs : s.toList = c :: cs) (hc : isPlainChar c = true)
    (hcs : ∀ d ∈ cs, isPlainChar d = true) : IsPlain s where
  nonempty := by simp [hs]
  chars d hd := by
    rw [hs] at hd
    obtain rfl | hd := List.mem_cons.mp hd
    · exact hc
    · exact hcs d hd

theorem isPlain_of_isSlug (h : isSlug s = true) : IsPlain s := by
  rw [isSlug] at h
  split at h
  · cases h
  · rename_i c cs hs
    simp only [Bool.and_eq_true, List.all_eq_true] at h
    have hc : isLowerAlnum c = true := by rw [isLowerAlnum, h.1.1.1.1.1, Bool.or_true]
    exact .of_cons hs (isPlainChar_of_isAlnum (isAlnum_of_isLowerAlnum hc)) fun d hd =>
      isPlainChar_of_lower (h.1.1.2 d hd)

theorem isPlain_of_isResourceName (h : isResourceName s = true) : IsPlain s := by
  rw [isResourceName] at h
  split at h
  · cases h
  · rename_i c cs hs
    simp only [Bool.and_eq_true, List.all_eq_true] at h
    have hc : isLowerAlnum c = true := by rw [isLowerAlnum, h.1.1.1.1, Bool.or_true]
    exact .of_cons hs (isPlainChar_of_isAlnum (isAlnum_of_isLowerAlnum hc)) fun d hd =>
      isPlainChar_of_lower (h.1.1.2 d hd)

theorem isPlain_of_isPlatformName (h : isPlatformName s = true) : IsPlain s := by
  rw [isPlatformName] at h
  split at h
  · cases h
  · rename_i c cs hs
    simp only [Bool.and_eq_true, List.all_eq_true] at h
    refine .of_cons hs (isPlainChar_of_isAlnum h.1.1) fun d hd => ?_
    have := h.2 d hd
    simp only [Bool.or_eq_true] at this
    rw [isPlainChar]
    simp only [Bool.or_eq_true]
    tauto

theorem isPlain_of_isNamespace (h : isNamespace s = true) : IsPlain s := by
  rw [isNamespace] at h
  split at h
  · cases h
  · rename_i c cs hs
    simp only [Bool.and_eq_true, List.all_eq_true] at h
    exact .of_cons hs (isPlainChar_of_isAlnum (isAlnum_of_isLowerAlnum h.1.1.1.1)) fun d hd =>
      isPlainChar_of_lower (h.1.2 d hd)

theorem isPlainChar_of_upper (h : (c.isUpper || c.isDigit || c == '_') = true) :
    isPlainChar c = true := by
  simp only [Bool.or_eq_true] at h
  simp only [isPlainChar, isAlnum, isLowerAlnum, Bool.or_eq_true]
  tauto

theorem isPlain_of_isEnvKey (h : isEnvKey s = true) : IsPlain s :=
  ⟨(isEnvKey_chars h).1, fun c hc => isPlainChar_of_upper ((isEnvKey_chars h).2 c hc)⟩

theorem isWordChar_of_upper (h : (c.isUpper || c.isDigit || c == '_') = true) :
    isWordChar c = true := by
  simp only [Bool.or_eq_true] at h
  simp only [isWordChar, Char.isAlphanum, Char.isAlpha, Bool.or_eq_true]
  tauto

/-- The parts of a UUID. -/
theorem isUuid_parts (h : isUuid s = true) : ∃ a b c d e,
    s.toList = a ++ '-' :: (b ++ '-' :: (c ++ '-' :: (d ++ '-' :: e))) ∧
      (a.length = 8 ∧ b.length = 4 ∧ c.length = 4 ∧ d.length = 4 ∧ e.length = 12) ∧
      ∀ x ∈ a ++ b ++ c ++ d ++ e, isHexLower x = true := by
  rw [isUuid] at h
  split at h
  · rename_i a b c d e hsplit
    simp only [Bool.and_eq_true, List.all_eq_true, beq_iff_eq] at h
    obtain ⟨⟨⟨⟨⟨ha, hb⟩, hc⟩, hd⟩, he⟩, hhex⟩ := h
    refine ⟨a, b, c, d, e, ?_, ⟨ha, hb, hc, hd, he⟩, hhex⟩
    have hs : s.toList = List.intercalate ['-'] [a, b, c, d, e] := by
      rw [← hsplit, List.intercalate_splitOn '-']
    rw [hs]
    simp [List.intercalate, List.intersperse]
  · cases h

theorem isPlain_of_isUuid (h : isUuid s = true) : IsPlain s := by
  obtain ⟨a, b, c, d, e, hs, hlengths, hhex⟩ := isUuid_parts h
  constructor
  · intro hnil
    rw [hnil] at hs
    exact absurd hs (by simp)
  · intro x hx
    obtain rfl | hx : x = '-' ∨ x ∈ a ++ b ++ c ++ d ++ e := by
      rw [hs] at hx
      simp only [List.mem_append, List.mem_cons] at hx ⊢
      tauto
    · decide
    · exact isPlainChar_of_isAlnum (isAlnum_of_isLowerAlnum (isLowerAlnum_of_isHexLower (hhex x hx)))

theorem isPlain_of_hex (hne : s.length ≠ 0) (h : s.toList.all isHexLower = true) : IsPlain s where
  nonempty hnil := by
    rw [← String.length_toList, hnil] at hne
    exact hne rfl
  chars c hc := isPlainChar_of_isAlnum (isAlnum_of_isLowerAlnum (isLowerAlnum_of_isHexLower
    (List.all_eq_true.mp h c hc)))

theorem isPlain_of_isSha256Hex (h : isSha256Hex s = true) : IsPlain s := by
  rw [isSha256Hex, Bool.and_eq_true, beq_iff_eq] at h
  exact isPlain_of_hex (by omega) h.2

theorem isPlain_of_isCommit (h : isCommit s = true) : IsPlain s := by
  rw [isCommit, Bool.and_eq_true, beq_iff_eq] at h
  exact isPlain_of_hex (by omega) h.2

theorem isPlain_of_isDomain (h : isDomain s = true) : IsPlain s := by
  rw [isDomain] at h
  simp only [Bool.and_eq_true, List.all_eq_true, decide_eq_true_eq] at h
  obtain ⟨⟨⟨-, hlength⟩, hinit⟩, hlast⟩ := h
  have hlabel : ∀ (first : Char → Bool) (l : List Char), isLabel first l = true →
      l ≠ [] ∧ ∀ c ∈ l, isPlainChar c = true := by
    intro first l hl
    simp only [isLabel, Bool.and_eq_true, List.all_eq_true] at hl
    refine ⟨?_, fun c hc => isPlainChar_of_lower (hl.1.2 c hc)⟩
    rintro rfl
    exact absurd hl.1.1.1 (by simp)
  have hall : ∀ l ∈ s.toList.splitOn '.', l ≠ [] ∧ ∀ c ∈ l, isPlainChar c = true := by
    have hne : s.toList.splitOn '.' ≠ [] := List.splitOn_ne_nil _ _
    rw [List.getLast?_eq_some_getLast hne, Option.any_some] at hlast
    intro l hl
    rw [← List.dropLast_append_getLast hne, List.mem_append, List.mem_singleton] at hl
    obtain hl | rfl := hl
    · exact hlabel _ l (hinit l hl)
    · exact hlabel _ _ hlast
  have hs : s.toList = List.intercalate ['.'] (s.toList.splitOn '.') :=
    (List.intercalate_splitOn '.').symm
  constructor
  · intro hnil
    rw [hnil] at hlength
    exact absurd hlength (by decide)
  · intro c hc
    rw [hs] at hc
    obtain rfl | ⟨p, hp, hc⟩ := mem_intercalate hc
    · decide
    · exact (hall p hp).2 c hc

theorem isPlain_of_digits {n : Nat} (h : s.toList = Nat.toDigits 10 n) : IsPlain s where
  nonempty := by
    rw [h]
    exact Nat.toDigits_ne_nil
  chars c hc := by
    rw [h] at hc
    have := Nat.isDigit_of_mem_toDigits (by decide) (by decide) hc
    exact isPlainChar_of_isAlnum (isAlnum_of_isLowerAlnum (by rw [isLowerAlnum, this, Bool.true_or]))

theorem isPlainChar_toUpper (h : isPlainChar c = true) : isPlainChar c.toUpper = true := by
  have hall : ∀ n < 127, isPlainChar (Char.ofNat n) = true →
      isPlainChar (Char.ofNat n).toUpper = true := by decide
  have := hall c.toNat (printable_of_isPlainChar h).2
  rw [Char.ofNat_toNat] at this
  exact this h

theorem IsPlain.upper {s : String} (h : IsPlain s) : IsPlain (upper s) where
  nonempty hnil := by
    rw [Controller.upper, String.toList_ofList] at hnil
    exact h.nonempty (List.map_eq_nil_iff.mp hnil)
  chars c hc := by
    rw [Controller.upper, String.toList_ofList] at hc
    obtain ⟨d, hd, rfl⟩ := List.mem_map.mp hc
    exact isPlainChar_toUpper (h.chars d hd)

/-- A text that is given. -/
theorem isPlain_of_check (h : (!s.toList.isEmpty && s.toList.all isPlainChar) = true) :
    IsPlain s := by
  obtain ⟨hne, hall⟩ := Bool.and_eq_true_iff.mp h
  refine ⟨?_, List.all_eq_true.mp hall⟩
  rintro hnil
  rw [hnil] at hne
  cases hne

/-! ## Storage bindings -/

variable {t : ResourceType} {output : String}

/-- A key of the app's variable is plain when the name and the output are. -/
theorem isPlain_secretKey {name : String} (hname : IsPlain name) (houtput : IsPlain output) :
    IsPlain (secretKey t name output) := by
  have hunderscores : IsPlain (String.ofList (name.toList.map fun c => if c = '-' then '_' else c)) := by
    constructor
    · rw [String.toList_ofList]
      exact fun hnil => hname.nonempty (List.map_eq_nil_iff.mp hnil)
    · intro c hc
      rw [String.toList_ofList] at hc
      obtain ⟨d, hd, rfl⟩ := List.mem_map.mp hc
      split
      · decide
      · exact hname.chars d hd
  have hsep : IsPlain "__" := isPlain_of_check (by decide)
  have htype : IsPlain (upper t.name) := by
    cases t <;> exact isPlain_of_check (by decide)
  have hstorage : IsPlain "STORAGE__" := isPlain_of_check (by decide)
  exact ((((hstorage.append htype).append hsep).append hunderscores.upper).append hsep).append
    houtput.upper

theorem isPlain_of_mem_outputs (h : output ∈ t.outputs) : IsPlain output := by
  refine isPlain_of_check ?_
  revert output
  cases t <;> decide

theorem isPlain_of_mem_retired (h : output ∈ t.retiredOutputs) : IsPlain output := by
  refine isPlain_of_check ?_
  revert output
  cases t <;> decide

theorem canonicalSecretKey_ok {name key : String} (h : canonicalSecretKey t name output = .ok key) :
    IsPlain key := by
  rw [canonicalSecretKey] at h
  obtain ⟨hname, h⟩ := check_bind_eq_ok.mp h
  obtain ⟨houtput, h⟩ := check_bind_eq_ok.mp h
  cases h
  exact isPlain_secretKey (isPlain_of_isResourceName (require_eq_ok.mp hname))
    (isPlain_of_mem_outputs (List.contains_iff_mem.mp (require_eq_ok.mp houtput)))

/-- What a manifest has of an accepted configuration. -/
structure Manifest.Checked (m : Manifest) : Prop where
  names : ∀ b ∈ m.storageBindings, isResourceName b.name = true
  targets : ∀ b ∈ m.storageBindings, ∀ o ∈ b.environment, isEnvKey o.2 = true
  visible : ∀ c ∈ m.healthPath.toList, 0x21 ≤ c.toNat ∧ c.toNat ≤ 0x7E
  backslash : '\\' ∉ m.healthPath.toList

variable {m : Manifest}

/-- The manifest of an accepted configuration. -/
theorem manifest_checked {payload : Payload} {c : DeploymentConfiguration}
    {resources : String → Option (String × String)} (hc : parseConfiguration payload = .ok c)
    (hm : c.manifest resources = .ok m) : m.Checked := by
  obtain ⟨-, -, -, -, -, hhealth, hbindings⟩ := manifest_ok hm
  have hvalid := parseConfiguration_valid hc
  obtain ⟨-, -, hvisible, hslash⟩ := healthPath_ok hvalid.healthPath
  refine ⟨fun b hb => ?_, fun b hb o ho => ?_, hhealth ▸ hvisible, hhealth ▸ hslash⟩
  · obtain ⟨b', -, hresolves⟩ := hbindings b hb
    exact hresolves.name
  · obtain ⟨b', hb', hresolves⟩ := hbindings b hb
    rw [hresolves.environment] at ho
    exact ((hvalid.bindings.valid b' hb').outputs o ho).target

theorem target_of_mem_bindingOutputs (hm : m.Checked) {o : StorageBinding × String × String}
    (h : o ∈ bindingOutputs m) : isEnvKey o.2.2 = true := by
  obtain ⟨b, hb, ho⟩ := List.mem_flatMap.mp h
  obtain ⟨o', ho', rfl⟩ := List.mem_map.mp ho
  exact hm.targets b hb o' ho'

variable {aliases : List (String × String)}

theorem bindingAliases_ok (hm : m.Checked) (h : bindingAliases m = .ok aliases) :
    ∀ a ∈ aliases, IsPlain a.1 ∧ isEnvKey a.2 = true := by
  intro a ha
  obtain ⟨o, ho, hkey⟩ := exists_of_mem_mapM h a ha
  obtain ⟨key, hcanonical, hkey⟩ := bind_eq_ok.mp hkey
  cases hkey
  exact ⟨canonicalSecretKey_ok hcanonical,
    target_of_mem_bindingOutputs hm (List.mem_of_mem_filter ho)⟩

theorem derivedEnvironment_ok {domain : String} (hdomain : IsPlain domain) (hm : m.Checked)
    {derived : List (String × String)} (h : derivedEnvironment domain m = .ok derived) :
    ∀ e ∈ derived, isEnvKey e.1 = true ∧ IsPlain e.2 := by
  intro e he
  obtain ⟨o, ho, hvalue⟩ := exists_of_mem_mapM h e he
  obtain ⟨value, hderived, hvalue⟩ := bind_eq_ok.mp hvalue
  cases hvalue
  rw [derivedOutput] at hderived
  obtain ⟨-, hderived⟩ := check_bind_eq_ok.mp hderived
  cases hderived
  exact ⟨target_of_mem_bindingOutputs hm (List.mem_of_mem_filter ho),
    (isPlain_of_check (by decide)).append hdomain⟩

theorem excludedKeys_ok {keys : List String} (h : excludedKeys m = .ok keys) :
    ∀ k ∈ keys, IsPlain k := by
  rw [excludedKeys] at h
  obtain ⟨stored, hstored, h⟩ := bind_eq_ok.mp h
  cases h
  intro k hk
  rw [List.mem_insertionSort, List.mem_dedup, List.mem_append] at hk
  obtain hk | hk := hk
  · refine isPlain_of_check ?_
    revert k
    decide
  · obtain ⟨keys, hkeys, hk⟩ := List.mem_flatten.mp hk
    obtain ⟨b, -, hb⟩ := exists_of_mem_mapM hstored keys hkeys
    obtain ⟨canonical, hcanonical, hb⟩ := bind_eq_ok.mp hb
    obtain ⟨retired, hretired, hb⟩ := bind_eq_ok.mp hb
    cases hb
    obtain hk | hk := List.mem_append.mp hk
    · obtain ⟨output, -, hkey⟩ := exists_of_mem_mapM hcanonical k hk
      exact canonicalSecretKey_ok hkey
    · rw [retiredSecretKeys] at hretired
      obtain ⟨hname, hretired⟩ := check_bind_eq_ok.mp hretired
      cases hretired
      obtain ⟨output, houtput, rfl⟩ := List.mem_map.mp hk
      exact isPlain_secretKey (isPlain_of_isResourceName (require_eq_ok.mp hname))
        (isPlain_of_mem_retired houtput)

/-- An entry of a dictionary is one of those it was made of. -/
theorem mem_of_mem_dictionary {entries : List (String × String)} {k v : String}
    (h : (⟨k, v⟩ : Sigma fun _ : String => String) ∈ (dictionary entries).entries) :
    (k, v) ∈ entries := by
  have hfold : ∀ (entries : List (String × String)) (t : Table String String),
      (⟨k, v⟩ : Sigma fun _ : String => String) ∈
          (entries.foldl (fun t e => t.insert e.1 e.2) t).entries →
        (k, v) ∈ entries ∨ (⟨k, v⟩ : Sigma fun _ : String => String) ∈ t.entries := by
    intro entries
    induction entries with
    | nil => exact fun t ht => .inr ht
    | cons e entries ih =>
      intro t ht
      obtain h | h := ih _ ht
      · exact .inl (List.mem_cons_of_mem _ h)
      · rw [AList.entries_insert] at h
        obtain h | h := List.mem_cons.mp h
        · obtain ⟨rfl, hv⟩ := Sigma.mk.inj h
          rw [eq_of_heq hv]
          exact .inl List.mem_cons_self
        · exact .inr ((List.kerase_sublist _ _).subset h)
  obtain h | h := hfold entries ∅ h
  · exact h
  · cases h

theorem platformEnvironment_ok {derived : List (String × String)} {identifier appSlug : String}
    {port : Nat} (hderived : ∀ e ∈ derived, isEnvKey e.1 = true ∧ IsPlain e.2)
    (hidentifier : IsPlain identifier) (hslug : IsPlain appSlug) :
    ∀ e ∈ platformEnvironment derived identifier appSlug port,
      isEnvKey e.1 = true ∧ IsPlain e.2 := by
  intro e he
  rw [platformEnvironment, List.mem_insertionSort] at he
  obtain ⟨entry, hentry, rfl⟩ := List.mem_map.mp he
  have hmem := mem_of_mem_dictionary hentry
  simp only [List.mem_append, platformEnvironmentValues, fixedPlatformEnvironment, jobEnvironment,
    List.mem_cons, List.not_mem_nil, or_false, Prod.mk.injEq] at hmem
  obtain (h | ((⟨hk, hv⟩ | ⟨hk, hv⟩) | ⟨hk, hv⟩ | ⟨hk, hv⟩ | ⟨hk, hv⟩)) | ⟨hk, hv⟩ | ⟨hk, hv⟩ := hmem
  · exact hderived _ h
  all_goals
    simp only [hk, hv]
    refine ⟨by decide, ?_⟩
  · exact isPlain_of_check (by decide)
  · exact isPlain_of_check (by decide)
  · exact hidentifier
  · exact hslug
  · exact isPlain_of_digits (by rw [Nat.toString_eq_repr, Nat.toList_repr])
  · exact isPlain_of_check (by decide)
  · exact isPlain_of_check (by decide)

/-! ## Accepted jobs -/

/-- The texts of a job, but for its health path, have the alphabets of their checks. -/
structure PlainJob (job : Job) : Prop where
  placement : IsPlain job.frame.placement
  markerId : IsPlain job.frame.markerId
  checkedSource : IsPlain job.frame.checkedSource
  checkedRecipe : IsPlain job.frame.checkedRecipe
  imagePin : '\n' ∉ job.frame.imagePin.toList
  jobId : IsPlain job.values.jobId
  hostname : IsPlain job.values.hostname
  previewHostname : IsPlain job.values.previewHostname
  variablePath : IsPlain job.values.variablePath
  healthPath : '\n' ∉ job.values.healthPath.toList
  bindingAliases : ∀ a ∈ job.values.bindingAliases, IsPlain a.1 ∧ isEnvKey a.2 = true
  excludedKeys : ∀ k ∈ job.values.excludedKeys, IsPlain k
  platformEnvironment : ∀ e ∈ job.values.platformEnvironment, isEnvKey e.1 = true ∧ IsPlain e.2

variable {platform : PlatformConfig} {a : JobArguments} {job : Job}

/-- What `render_nomad_job` accepts. -/
theorem buildJob_ok (h : buildJob platform a m = .ok job) :
    isUuid a.applicationId = true ∧ isUuid job.frame.placement = true ∧
      isUuid job.frame.markerId = true ∧ isSlug a.applicationSlug = true ∧
      (a.promoted = true → a.staged = true) ∧
      (100 ≤ a.routePriority ∧ a.routePriority ≤ 1000000000) ∧ isOciDigestPin a.image = true ∧
      isCommit a.sourceCommit = true ∧ isSha256Hex a.recipeHash = true ∧
      ∃ aliases derived excluded, bindingAliases m = .ok aliases ∧
        derivedEnvironment platform.domain m = .ok derived ∧ excludedKeys m = .ok excluded ∧
        job = {
          frame := {
            platform := platform
            placement := orDefault a.placementId a.applicationId
            markerId := orDefault a.routeMarker a.applicationId
            imagePin := a.image
            cpuMhz := a.cpuMhz
            memoryMib := a.memoryMib
            checkedSource := a.sourceCommit
            checkedRecipe := a.recipeHash
            staged := a.staged
            promoted := a.promoted
            routePriority := a.routePriority
            forcePull := a.forcePull
          }
          values := {
            jobId := jobId a.applicationSlug a.candidate
            hostname := hostname platform.domain a.applicationSlug
            previewHostname := previewHostname platform.domain a.applicationSlug
            variablePath := variablePath (jobId a.applicationSlug a.candidate)
            port := m.port
            healthPath := m.healthPath
            bindingAliases := aliases
            excludedKeys := excluded
            platformEnvironment :=
              platformEnvironment derived a.applicationId a.applicationSlug m.port
          }
        } := by
  simp only [buildJob, check_bind_eq_ok] at h
  obtain ⟨hid, hplacement, hmarker, hslug, hpromoted, hpriority, himage, -, -, hcommit, hrecipe,
    h⟩ := h
  obtain ⟨aliases, haliases, h⟩ := bind_eq_ok.mp h
  obtain ⟨derived, hderived, h⟩ := bind_eq_ok.mp h
  obtain ⟨excluded, hexcluded, h⟩ := bind_eq_ok.mp h
  cases h
  simp only [require_eq_ok, Bool.not_eq_true', Bool.and_eq_false_iff, Bool.not_eq_false'] at hpromoted
  simp only [require_eq_ok, Bool.and_eq_true, decide_eq_true_eq] at hpriority
  refine ⟨require_eq_ok.mp hid, require_eq_ok.mp hplacement, require_eq_ok.mp hmarker,
    require_eq_ok.mp hslug, fun hp => ?_, hpriority, require_eq_ok.mp himage,
    require_eq_ok.mp hcommit, require_eq_ok.mp hrecipe, aliases, derived, excluded, haliases,
    hderived, hexcluded, rfl⟩
  exact hpromoted.resolve_left (by simp [hp])

theorem isPlain_jobId {applicationSlug : String} (h : IsPlain applicationSlug) (candidate : Bool) :
    IsPlain (jobId applicationSlug candidate) := by
  cases candidate with
  | false => exact h
  | true => exact h.append (isPlain_of_check (by decide))

/-- A pin has no line end. -/
theorem lineEnd_notMem_pin (h : isOciDigestPin s = true) : '\n' ∉ s.toList :=
  fun hmem => (ne_of_notSpace (isSpace_of_mem_pin h hmem)).2 rfl

theorem plainJob_of_build (hm : m.Checked) (h : buildJob platform a m = .ok job) :
    PlainJob job := by
  obtain ⟨hid, hplacement, hmarker, hslug, -, -, himage, hcommit, hrecipe, aliases, derived,
    excluded, haliases, hderived, hexcluded, rfl⟩ := buildJob_ok h
  have hslug := isPlain_of_isSlug hslug
  have hdomain := isPlain_of_isDomain platform.domain_ok
  have hjobId := isPlain_jobId hslug a.candidate
  exact {
    placement := isPlain_of_isUuid hplacement
    markerId := isPlain_of_isUuid hmarker
    checkedSource := isPlain_of_isCommit hcommit
    checkedRecipe := isPlain_of_isSha256Hex hrecipe
    imagePin := lineEnd_notMem_pin himage
    jobId := hjobId
    hostname := (hslug.append (isPlain_of_check (by decide))).append hdomain
    previewHostname := (hslug.append (isPlain_of_check (by decide))).append hdomain
    variablePath := (isPlain_of_check (by decide)).append hjobId
    healthPath := fun hn => absurd (hm.visible _ hn).1 (by decide)
    bindingAliases := bindingAliases_ok hm haliases
    excludedKeys := excludedKeys_ok hexcluded
    platformEnvironment := platformEnvironment_ok (derivedEnvironment_ok hdomain hm hderived)
      (isPlain_of_isUuid hid) hslug
  }

/-! ## The lines outside the template -/

/-- The lines of a list are read as they are meant. -/
def AllRead (ls : List Line) : Prop := ∀ l ∈ ls, l.Reads

theorem AllRead.append {ls ls' : List Line} (h : AllRead ls) (h' : AllRead ls') :
    AllRead (ls ++ ls') := List.forall_mem_append.mpr ⟨h, h'⟩

theorem AllRead.cons {l : Line} {ls : List Line} (h : l.Reads) (h' : AllRead ls) :
    AllRead (l :: ls) := List.forall_mem_cons.mpr ⟨h, h'⟩

theorem AllRead.nil : AllRead [] := fun _ h => absurd h List.not_mem_nil

theorem text_lit (s : String) : Line.text [lit s] = s.toList := List.append_nil _

/-- Fixed lines are read as they are meant when none of them starts a heredoc. -/
theorem allRead_fixed {lines : List String}
    (h : (lines.all fun s => (finish (run .blank s.toList).1).2 == none && !s.toList.contains '\n') =
      true) : AllRead (fixed lines) := by
  intro l hl
  obtain ⟨s, hs, rfl⟩ := List.mem_map.mp hl
  obtain ⟨hopens, hline⟩ := Bool.and_eq_true_iff.mp (List.all_eq_true.mp h s hs)
  refine Line.reads_of_fits ?_ ⟨trivial, trivial⟩ (eq_of_beq hopens)
  rw [text_lit]
  simpa using hline

theorem head_reads (h : PlainJob job) : job.head.Reads :=
  Line.Leads.reads
    (.lit ⟨by rfl, by simp⟩ (.str h.jobId.plainText (.lit ⟨by rfl, by simp⟩ (.nil _))))

theorem allRead_placement (h : PlainJob job) : AllRead job.placementLines := by
  have hregion := isPlain_of_isPlatformName job.frame.platform.region_ok
  have hdatacenter := isPlain_of_isPlatformName job.frame.platform.datacenter_ok
  refine .append (.append (.append ?_ (allRead_fixed (by rfl))) ?_)
    (allRead_fixed (by rfl))
  · exact .cons (Line.reads_between ⟨by decide, hregion.plainText.newline, by decide⟩ (by decide))
      (.cons (Line.reads_between ⟨by decide, hdatacenter.plainText.newline, by decide⟩
        (by decide)) .nil)
  · exact .cons (Line.reads_between ⟨by decide, h.placement.plainText.newline, by decide⟩
      (by decide)) .nil

/-- The digits of a number are a word. -/
theorem word_intText (n : Int) : intText n ≠ [] ∧ ∀ c ∈ intText n, isWordChar c = true := by
  have hdigits : ∀ (n : Nat), ∀ c ∈ (JsonText.digits n).map Char.ofNat, isWordChar c = true := by
    intro n c hc
    obtain ⟨d, hd, rfl⟩ := List.mem_map.mp hc
    have hd := JsonText.isDigit_of_mem_digits hd
    rw [JsonText.isDigit, Bool.and_eq_true, decide_eq_true_eq, decide_eq_true_eq] at hd
    have hall : ∀ d < 58, 48 ≤ d → isWordChar (Char.ofNat d) = true := by decide
    exact hall d (by omega) hd.1
  cases n with
  | ofNat n =>
    obtain ⟨c, t, hdigits', -⟩ := JsonText.exists_head_digits n
    exact ⟨by rw [intText, JsonText.dumpInt, hdigits']; simp, hdigits n⟩
  | negSucc n =>
    refine ⟨by rw [intText, JsonText.dumpInt]; simp, fun c hc => ?_⟩
    rw [intText, JsonText.dumpInt, List.map_cons] at hc
    obtain rfl | hc := List.mem_cons.mp hc
    · decide
    · exact hdigits (n + 1) c hc

theorem allRead_network (h : PlainJob job) : AllRead job.networkLines := by
  obtain ⟨hne, hword⟩ := word_intText job.values.port
  refine .append (.append (.append (.append (allRead_fixed (by rfl)) ?_)
    (allRead_fixed (by rfl))) ?_) (allRead_fixed (by rfl))
  · exact .cons (Line.Leads.reads_word (.lit ⟨by rfl, by simp⟩ (.word hne hword (.nil _)))) .nil
  · exact .cons (Line.Leads.reads (.lit ⟨by rfl, by simp⟩ (.str h.jobId.plainText
      (.lit ⟨by rfl, by simp⟩ (.nil _))))) .nil

/-- The names of a router are plain. -/
theorem isPlain_of_mem_routers (h : PlainJob job) {r : Router} (hr : r ∈ job.routers) :
    IsPlain r.name ∧ IsPlain r.host := by
  rw [Job.routers, List.mem_append] at hr
  obtain hr | hr := hr
  · split at hr
    · obtain rfl := List.mem_singleton.mp hr
      exact ⟨h.jobId.append (isPlain_of_check (by decide)), h.previewHostname⟩
    · obtain rfl := List.mem_singleton.mp hr
      exact ⟨h.jobId, h.hostname⟩
  · split at hr
    · obtain rfl := List.mem_singleton.mp hr
      exact ⟨h.jobId.append (isPlain_of_check (by decide)), h.hostname⟩
    · cases hr

theorem allRead_routerTags {jobId : String} {r : Router} (hjob : IsPlain jobId)
    (hname : IsPlain r.name) (hhost : IsPlain r.host) : AllRead (routerTags jobId r) := by
  obtain ⟨hne, hword⟩ := word_intText r.priority
  have hpriority := plainText_of_word hne hword
  refine .cons ?_ (.cons ?_ (.cons ?_ (.cons ?_ (.cons ?_ .nil))))
  · exact Line.Leads.reads (.lit ⟨by rfl, by simp⟩ (.str hname.plainText
      (.lit ⟨by rfl, by simp⟩ (.nil _))))
  · exact Line.Leads.reads (.lit ⟨by rfl, by simp⟩ (.str hname.plainText
      (.lit ⟨by rfl, by simp⟩ (.str hhost.plainText (.lit ⟨by rfl, by simp⟩ (.nil _))))))
  · exact Line.Leads.reads (.lit ⟨by rfl, by simp⟩ (.str hname.plainText
      (.lit ⟨by rfl, by simp⟩ (.plain hpriority (.lit ⟨by rfl, by simp⟩ (.nil _))))))
  · exact Line.Leads.reads (.lit ⟨by rfl, by simp⟩ (.str hname.plainText
      (.lit ⟨by rfl, by simp⟩ (.str hjob.plainText (.lit ⟨by rfl, by simp⟩ (.nil _))))))
  · exact Line.Leads.reads (.lit ⟨by rfl, by simp⟩ (.str hname.plainText
      (.lit ⟨by rfl, by simp⟩ (.str hjob.plainText (.lit ⟨by rfl, by simp⟩ (.nil _))))))

theorem allRead_serviceTags {f : JobFrame} {jobId : String} (hjob : IsPlain jobId)
    (hmarker : IsPlain f.markerId) : AllRead (serviceTags f jobId) := by
  refine .cons ?_ (.cons ?_ (.cons ?_ (.cons ?_ .nil)))
  · exact Line.Leads.reads (.lit ⟨by rfl, by simp⟩ (.str hjob.plainText
      (.lit ⟨by rfl, by decide⟩ (.nil _))))
  · exact Line.Leads.reads (.lit ⟨by rfl, by simp⟩ (.str hjob.plainText
      (.lit ⟨by rfl, by simp⟩ (.nil _))))
  · exact Line.Leads.reads (.lit ⟨by rfl, by simp⟩ (.str hjob.plainText
      (.lit ⟨by rfl, by simp⟩ (.nil _))))
  · exact Line.Leads.reads (.lit ⟨by rfl, by simp⟩ (.str hjob.plainText
      (.lit ⟨by rfl, by decide⟩ (.plain hmarker.plainText (.lit ⟨by rfl, by simp⟩ (.nil _))))))

theorem allRead_tags (h : PlainJob job) : AllRead job.tagLines := by
  have hnamespace := isPlain_of_isNamespace job.frame.platform.namespace_ok
  refine .append (.append (.append ?_ (allRead_fixed (by rfl))) ?_)
    (allRead_serviceTags h.jobId h.markerId)
  · exact .cons (Line.reads_between ⟨by decide, hnamespace.plainText.newline, by decide⟩
      (by decide)) .nil
  · intro l hl
    obtain ⟨r, hr, hl⟩ := List.mem_flatMap.mp hl
    obtain ⟨hname, hhost⟩ := isPlain_of_mem_routers h hr
    exact allRead_routerTags h.jobId hname hhost l hl

/-- The line of the health path is read as it is meant when the path is inert. -/
theorem path_reads {path : String} (h : InertText path.toList) :
    Line.Reads [lit "        path     = \"", val path, lit "\""] := by
  have htext : Line.text [lit "        path     = \"", val path, lit "\""] =
      "        path     = ".toList ++ ('"' :: path.toList ++ ['"']) := by
    simp [Line.text, Piece.text, lit, val]
  have hbefore : run .blank "        path     = ".toList =
      (.blank, [.word "path".toList, .symbol '=']) := by decide +kernel
  constructor
  · rw [htext, List.mem_append, List.mem_append, List.mem_cons, not_or, not_or, not_or]
    exact ⟨by decide, ⟨by decide, h.newline⟩, by decide⟩
  · rw [readLine]
    simp only [htext, run_append _ "        path     = ".toList, hbefore, run_quoted h]
    rfl

theorem allRead_check (h : InertText job.values.healthPath.toList) : AllRead job.checkLines :=
  .append (allRead_fixed (by rfl)) (.cons (path_reads h) .nil)

/-- The line of the storage host is read as it is meant, whatever the inventory holds. -/
theorem extraHosts_reads (s : String) :
    Line.Reads [lit "        extra_hosts     = [", .lit (jsonText s), lit "]"] := by
  refine Line.reads_between ⟨by decide, fun hn => ?_, by decide⟩ (by decide)
  obtain ⟨c, hc, hn⟩ := List.mem_map.mp hn
  have hprint := JsonText.isPrintable_dumpString _ c hc
  have hc10 : (Char.ofNat c).toNat = c :=
    Text.ofNat_toNat_of_isScalar (Text.isScalar_of_lt (by omega))
  rw [hn] at hc10
  have : c = 10 := hc10.symm
  omega

theorem allRead_task (h : PlainJob job) : AllRead job.taskLines := by
  have hnamespace := isPlain_of_isNamespace job.frame.platform.namespace_ok
  have hforce : AllRead
      [[lit "        force_pull      = ", lit (if job.frame.forcePull then "true" else "false")]] := by
    cases job.frame.forcePull with
    | true => exact .cons (Line.Leads.reads_word (.lit ⟨by rfl, by simp⟩
        (.fixedWord (by decide) (by decide) (.nil _)))) .nil
    | false => exact .cons (Line.Leads.reads_word (.lit ⟨by rfl, by simp⟩
        (.fixedWord (by decide) (by decide) (.nil _)))) .nil
  refine .append (.append (.append (.append (.append (.append (allRead_fixed (by rfl)) ?_)
    (allRead_fixed (by rfl))) ?_) (allRead_fixed (by rfl))) hforce)
    (allRead_fixed (by rfl))
  · exact .cons (Line.reads_between ⟨by decide, hnamespace.plainText.newline, by decide⟩
      (by decide)) .nil
  · exact .cons (Line.reads_between ⟨by decide, h.imagePin, by decide⟩ (by decide))
      (.cons (extraHosts_reads _) .nil)

theorem allRead_environment (h : PlainJob job) : AllRead job.environmentLines := by
  refine .append ?_ (allRead_fixed (by rfl))
  intro l hl
  obtain ⟨e, he, rfl⟩ := List.mem_map.mp hl
  obtain ⟨hkey, hvalue⟩ := h.platformEnvironment e he
  obtain ⟨hne, hchars⟩ := isEnvKey_chars hkey
  exact Line.Leads.reads (.lit ⟨by rfl, by simp⟩ (.word hne
    (fun c hc => isWordChar_of_upper (hchars c hc)) (.lit ⟨by rfl, by simp⟩
    (.json hvalue.plainText hvalue.printable (.nil _)))))

theorem allRead_marker (h : PlainJob job) {identity : String} (hidentity : IsPlain identity) :
    AllRead (job.markerLines identity) := by
  refine .cons ?_ (.cons ?_ (.cons ?_ (.cons ?_ (.cons ?_ (.cons ?_ (.cons ?_ (.cons ?_ .nil)))))))
  · exact Line.Leads.reads (.lit ⟨by rfl, by simp⟩ (.nil _))
  · exact Line.Leads.reads (.lit ⟨by rfl, by decide⟩ (.str hidentity.plainText
      (.lit ⟨by rfl, by simp⟩ (.nil _))))
  · exact Line.reads_between ⟨by decide, h.imagePin, by decide⟩ (by decide)
  · exact Line.reads_between ⟨by decide, h.markerId.plainText.newline, by decide⟩ (by decide)
  · exact Line.reads_between ⟨by decide, h.checkedSource.plainText.newline, by decide⟩ (by decide)
  · exact Line.reads_between ⟨by decide, h.checkedRecipe.plainText.newline, by decide⟩ (by decide)
  · exact Line.Leads.reads (.lit ⟨by rfl, by simp⟩ (.nil _))
  · exact Line.Leads.reads (.nil _)

theorem allRead_resource (job : Job) : AllRead job.resourceLines := by
  obtain ⟨hcpu, hcpuWord⟩ := word_intText job.frame.cpuMhz
  obtain ⟨hmemory, hmemoryWord⟩ := word_intText job.frame.memoryMib
  refine .append (.append (allRead_fixed (by rfl)) ?_) (allRead_fixed (by rfl))
  exact .cons (Line.Leads.reads_word (.lit ⟨by rfl, by simp⟩ (.fixedWord hcpu hcpuWord (.nil _))))
    (.cons (Line.Leads.reads_word (.lit ⟨by rfl, by simp⟩
      (.fixedWord hmemory hmemoryWord (.nil _)))) .nil)

/-- The lines before the template's text. -/
theorem allRead_body (h : PlainJob job) (hpath : InertText job.values.healthPath.toList) :
    AllRead job.bodyLines :=
  .append (.append (.append (.append (.append (allRead_placement h) (allRead_network h))
    (allRead_tags h)) (allRead_check hpath)) (allRead_task h)) (allRead_environment h)

/-! ## The template's text -/

/-- The marker of the template's text. -/
def templateMarker : List Char := "EOH".toList

theorem calm_val (h : IsPlain s) : (val s).Calm := Piece.calm_val h.plainText

theorem calm_comparisons : ∀ {keys : List String}, (∀ k ∈ keys, IsPlain k) →
    ∀ p ∈ comparisons keys, p.Calm
  | [], _, p, hp => absurd hp List.not_mem_nil
  | [key], h, p, hp => by
    simp only [comparisons, List.mem_cons, List.not_mem_nil, or_false] at hp
    obtain rfl | rfl | rfl := hp
    · decide
    · exact calm_val (h key List.mem_cons_self)
    · decide
  | key :: key' :: keys, h, p, hp => by
    rw [comparisons, List.mem_append] at hp
    obtain hp | hp := hp
    · simp only [List.mem_cons, List.not_mem_nil, or_false] at hp
      obtain rfl | rfl | rfl := hp
      · decide
      · exact calm_val (h key List.mem_cons_self)
      · decide
    · exact calm_comparisons (fun k hk => h k (List.mem_cons_of_mem _ hk)) p hp
    · simp

/-- A line of the template's text that has a closing brace. -/
theorem quiet_of_brace {l : Line} (h : ∀ p ∈ l, p.Calm) {p : Piece} (hp : p ∈ l)
    (hbrace : '\x7d' ∈ p.text) : l.Quiet templateMarker :=
  Line.quiet_of_calm h (List.mem_flatMap.mpr ⟨p, hp, hbrace⟩) (by decide) (by decide)

theorem quiet_fixed {lines : List String}
    (h : (lines.all fun s => decide (lit s).Calm && s.toList.contains '\x7d') = true) :
    ∀ l ∈ fixed lines, l.Quiet templateMarker := by
  intro l hl
  obtain ⟨s, hs, rfl⟩ := List.mem_map.mp hl
  obtain ⟨hcalm, hbrace⟩ := Bool.and_eq_true_iff.mp (List.all_eq_true.mp h s hs)
  refine quiet_of_brace (fun p hp => ?_) List.mem_cons_self (List.contains_iff_mem.mp hbrace)
  rw [List.mem_singleton.mp hp]
  exact of_decide_eq_true hcalm

theorem quiet_aliasLines (h : ∀ a ∈ aliases, IsPlain a.1 ∧ isEnvKey a.2 = true) :
    ∀ l ∈ aliasLines aliases, l.Quiet templateMarker := by
  intro l hl
  rw [aliasLines] at hl
  split at hl
  · rw [List.mem_singleton.mp hl]
    exact ⟨by decide, by decide, by decide⟩
  · obtain ⟨a, ha, hl⟩ := List.mem_flatMap.mp hl
    obtain ⟨hkey, htarget⟩ := h a ha
    simp only [List.mem_cons, List.not_mem_nil, or_false] at hl
    obtain rfl | rfl := hl
    · refine quiet_of_brace (p := lit "\" \x7d\x7d") (fun p hp => ?_) (by simp) (by decide)
      simp only [List.mem_cons, List.not_mem_nil, or_false] at hp
      obtain rfl | rfl | rfl := hp
      · decide
      · exact calm_val hkey
      · decide
    · refine quiet_of_brace (p := lit "=\x7b\x7b $value | toJSON \x7d\x7d") (fun p hp => ?_)
        (by simp) (by decide)
      simp only [List.mem_cons, List.not_mem_nil, or_false] at hp
      obtain rfl | rfl := hp
      · exact calm_val (isPlain_of_isEnvKey htarget)
      · decide

/-- The template's text is text. -/
theorem quiet_template (h : PlainJob job) : ∀ l ∈ job.templateLines, l.Quiet templateMarker := by
  rw [Job.templateLines]
  refine List.forall_mem_append.mpr ⟨List.forall_mem_append.mpr ⟨List.forall_mem_append.mpr
    ⟨?_, quiet_fixed (by decide)⟩, quiet_aliasLines h.bindingAliases⟩, quiet_fixed (by decide)⟩
  refine List.forall_mem_cons.mpr ⟨?_, List.forall_mem_cons.mpr ⟨?_, by simp⟩⟩
  · refine quiet_of_brace (p := lit "\" \x7d\x7d") (fun p hp => ?_) (by simp) (by decide)
    simp only [List.mem_cons, List.not_mem_nil, or_false] at hp
    obtain rfl | rfl | rfl := hp
    · decide
    · exact calm_val h.variablePath
    · decide
  · refine quiet_of_brace (p := lit "\x7b\x7b range $key, $value := . \x7d\x7d\x7b\x7b if and ")
      (fun p hp => ?_) (by simp) (by decide)
    rw [List.mem_append, List.mem_append, List.mem_singleton, List.mem_singleton] at hp
    obtain (rfl | hp) | rfl := hp
    · decide
    · exact calm_comparisons h.excludedKeys p hp
    · decide

/-! ## What a job says -/

/-- What a job is meant to say. -/
def Job.tokens (job : Job) (identity : String) : List Token :=
  (job.head :: job.markerLines identity ++ job.bodyLines).flatMap Line.tokens ++ dataLine.tokens ++
    job.templateLines.map (fun l => Token.line l.text) ++ [.heredocEnd] ++
    job.resourceLines.flatMap Line.tokens ++ [.newline]

theorem readLine_data : readLine none dataLine.text = (dataLine.tokens, some templateMarker) := by
  decide +kernel

theorem readLine_end :
    readLine (some templateMarker) endLine.text = ([.heredocEnd], none) := by
  decide +kernel

/-- A job with an inert health path is read as it is meant. -/
theorem read_text {identity : String} (h : PlainJob job) (hidentity : IsPlain identity)
    (hpath : InertText job.values.healthPath.toList) :
    Hcl.read (joinLines ((job.lines identity).map Line.text)) = job.tokens identity := by
  have hbefore : AllRead (job.head :: job.markerLines identity ++ job.bodyLines) :=
    .append (.cons (head_reads h) (allRead_marker h hidentity)) (allRead_body h hpath)
  have hlines : job.lines identity = (job.head :: job.markerLines identity ++ job.bodyLines) ++
      (dataLine :: (job.templateLines ++ endLine :: job.resourceLines)) := by
    simp [Job.lines, Job.restLines]
  rw [hlines, read_heredoc hbefore (by decide) readLine_data (quiet_template h) (by decide)
    readLine_end (allRead_resource job), Job.tokens]

/-! ## The structure -/

/-- A job of a deployment with some aliases and some entries of the environment, and nothing else
of its application. -/
def blankJob (frame : JobFrame) (aliases environment : Nat) : Job where
  frame := frame
  values := {
    jobId := ""
    hostname := ""
    previewHostname := ""
    variablePath := ""
    port := 0
    healthPath := ""
    bindingAliases := List.replicate aliases ("", "")
    excludedKeys := []
    platformEnvironment := List.replicate environment ("", "")
  }

/-- The structure of the jobs of a deployment: what they say, without what is in their words, their
strings and the lines of their templates. -/
def jobShape (frame : JobFrame) (aliases environment : Nat) : List Token :=
  ((blankJob frame aliases environment).tokens "").map Token.shape

/-- The lines are those of one template. -/
abbrev AlikeLines (ls ls' : List Line) : Prop := List.Forall₂ Line.Alike ls ls'

theorem alikeLines_refl (ls : List Line) : AlikeLines ls ls :=
  List.forall₂_same.mpr fun l _ => l.alike_refl

theorem AlikeLines.append {ls₁ ls₂ ls₁' ls₂' : List Line} (h₁ : AlikeLines ls₁ ls₁')
    (h₂ : AlikeLines ls₂ ls₂') : AlikeLines (ls₁ ++ ls₂) (ls₁' ++ ls₂') :=
  List.rel_append h₁ h₂

theorem alike_routerTags (jobId jobId' : String) {r r' : Router} (h : r.priority = r'.priority) :
    AlikeLines (routerTags jobId r) (routerTags jobId' r') := by
  rw [routerTags, routerTags, h]
  refine .cons ?_ (.cons ?_ (.cons ?_ (.cons ?_ (.cons ?_ .nil))))
  · exact .cons (.lit _) (.cons (.val _ _) (.cons (.lit _) .nil))
  · exact .cons (.lit _) (.cons (.val _ _) (.cons (.lit _) (.cons (.val _ _) (.cons (.lit _) .nil))))
  · exact .cons (.lit _) (.cons (.val _ _) (.cons (.lit _) (.cons (.lit _) (.cons (.lit _) .nil))))
  · exact .cons (.lit _) (.cons (.val _ _) (.cons (.lit _) (.cons (.val _ _) (.cons (.lit _) .nil))))
  · exact .cons (.lit _) (.cons (.val _ _) (.cons (.lit _) (.cons (.val _ _) (.cons (.lit _) .nil))))

theorem alike_serviceTags (f : JobFrame) (jobId jobId' : String) :
    AlikeLines (serviceTags f jobId) (serviceTags f jobId') := by
  refine .cons ?_ (.cons ?_ (.cons ?_ (.cons ?_ .nil)))
  · exact .cons (.lit _) (.cons (.val _ _) (.cons (.lit _) .nil))
  · exact .cons (.lit _) (.cons (.val _ _) (.cons (.lit _) .nil))
  · exact .cons (.lit _) (.cons (.val _ _) (.cons (.lit _) .nil))
  · exact .cons (.lit _) (.cons (.val _ _) (.cons (.lit _) (.cons (.lit _) (.cons (.lit _) .nil))))

/-- The routers of two jobs of a deployment have the same priorities. -/
theorem alike_routers {job' : Job} (h : job.frame = job'.frame) :
    AlikeLines (job.routers.flatMap (routerTags job.values.jobId))
      (job'.routers.flatMap (routerTags job'.values.jobId)) := by
  rw [Job.routers, Job.routers, h, List.flatMap_append, List.flatMap_append]
  refine .append ?_ ?_
  · split
    · rw [List.flatMap_singleton, List.flatMap_singleton]
      exact alike_routerTags _ _ rfl
    · rw [List.flatMap_singleton, List.flatMap_singleton]
      exact alike_routerTags _ _ rfl
  · split
    · rw [List.flatMap_singleton, List.flatMap_singleton]
      exact alike_routerTags _ _ rfl
    · exact .nil

theorem alike_environment : ∀ {entries entries' : List (String × String)},
    entries.length = entries'.length →
      AlikeLines (environmentLines entries) (environmentLines entries')
  | [], [], _ => .nil
  | [], _ :: _, h => absurd h (by simp)
  | _ :: _, [], h => absurd h (by simp)
  | _ :: entries, _ :: entries', h =>
    .cons (.cons (.lit _) (.cons (.val _ _) (.cons (.lit _) (.cons (.json _ _) .nil))))
      (alike_environment (Nat.succ.inj h))

/-- The lines around the template's text, of two jobs of a deployment. -/
theorem alike_body {job' : Job} (h : job.frame = job'.frame)
    (henvironment : job.values.platformEnvironment.length =
      job'.values.platformEnvironment.length) : AlikeLines job.bodyLines job'.bodyLines := by
  have hplacement : AlikeLines job.placementLines job'.placementLines := by
    rw [Job.placementLines, Job.placementLines, h]
    exact alikeLines_refl _
  have hnetwork : AlikeLines job.networkLines job'.networkLines := by
    refine .append (.append (.append (.append (alikeLines_refl _) ?_) (alikeLines_refl _)) ?_)
      (alikeLines_refl _)
    · exact .cons (.cons (.lit _) (.cons (.val _ _) .nil)) .nil
    · exact .cons (.cons (.lit _) (.cons (.val _ _) (.cons (.lit _) .nil))) .nil
  have htags : AlikeLines job.tagLines job'.tagLines := by
    rw [Job.tagLines, Job.tagLines]
    refine .append (.append ?_ (alike_routers h)) ?_
    · rw [h]
      exact alikeLines_refl _
    · rw [h]
      exact alike_serviceTags _ _ _
  have hcheck : AlikeLines job.checkLines job'.checkLines :=
    .append (alikeLines_refl _)
      (.cons (.cons (.lit _) (.cons (.val _ _) (.cons (.lit _) .nil))) .nil)
  have htask : AlikeLines job.taskLines job'.taskLines := by
    rw [Job.taskLines, Job.taskLines, h]
    exact alikeLines_refl _
  have henv : AlikeLines job.environmentLines job'.environmentLines :=
    .append (alike_environment henvironment) (alikeLines_refl _)
  exact ((((hplacement.append hnetwork).append htags).append hcheck).append htask).append henv

theorem length_aliasLines {aliases' : List (String × String)}
    (h : aliases.length = aliases'.length) :
    (aliasLines aliases).length = (aliasLines aliases').length := by
  cases aliases with
  | nil =>
    rw [List.length_eq_zero_iff.mp h.symm]
  | cons a aliases =>
    cases aliases' with
    | nil => cases h
    | cons a' aliases' =>
      simp only [aliasLines, List.isEmpty_cons, Bool.false_eq_true, if_false, List.length_flatMap,
        List.length_cons, List.length_nil, List.map_const', List.sum_replicate] at h ⊢
      rw [h]

/-- The structure of what a job says is a function of its deployment and of the numbers of its
entries. -/
theorem shape_tokens (job : Job) (identity : String) :
    (job.tokens identity).map Token.shape =
      jobShape job.frame job.values.bindingAliases.length
        job.values.platformEnvironment.length := by
  have hmarker : AlikeLines (job.markerLines identity)
      ((blankJob job.frame job.values.bindingAliases.length
        job.values.platformEnvironment.length).markerLines "") :=
    .cons (Line.alike_refl _) (.cons (.cons (.lit _) (.cons (.val _ _) (.cons (.lit _) .nil)))
      (alikeLines_refl _))
  have hhead : job.head.Alike (blankJob job.frame job.values.bindingAliases.length
      job.values.platformEnvironment.length).head :=
    .cons (.lit _) (.cons (.val _ _) (.cons (.lit _) .nil))
  have hbody : AlikeLines job.bodyLines (blankJob job.frame job.values.bindingAliases.length
      job.values.platformEnvironment.length).bodyLines :=
    alike_body rfl (by simp [blankJob])
  have hlines : ∀ ls : List Line, (ls.map fun l => Token.line l.text).map Token.shape =
      List.replicate ls.length (.line []) := by
    intro ls
    rw [List.map_map, ← List.map_const']
    rfl
  have htemplate : job.templateLines.length = (blankJob job.frame job.values.bindingAliases.length
      job.values.platformEnvironment.length).templateLines.length := by
    have haliases : (aliasLines job.values.bindingAliases).length =
        (aliasLines (List.replicate job.values.bindingAliases.length ("", ""))).length :=
      length_aliasLines (by simp)
    simp only [Job.templateLines, List.length_append, haliases, blankJob, List.length_cons,
      List.length_nil]
  rw [jobShape, Job.tokens, Job.tokens]
  simp only [List.map_append, hlines, htemplate]
  rw [shape_tokens_of_alike (AlikeLines.append (.cons hhead hmarker) hbody)]
  rfl

/-! ## The main result -/

/-- The owner's texts that a job holds: the slug, the health path, and the names of storage and of
variables. -/
def ownerTexts (a : JobArguments) (m : Manifest) : List String :=
  a.applicationSlug :: m.healthPath ::
    m.storageBindings.flatMap fun b => b.name :: b.environment.map Prod.snd

/-- What the health check's path is meant to say. -/
def pathTokens (path : String) : List Token :=
  [.word "path".toList, .symbol '=', .str path.toList, .newline]

theorem tokens_path (path : String) :
    Line.tokens [lit "        path     = \"", val path, lit "\""] = pathTokens path := by
  have hbefore : Hcl.run .blank "        path     = \"".toList =
      (.str [] false, [.word "path".toList, .symbol '=']) := by decide +kernel
  have hafter : ∀ v : List Char, Hcl.run (.str v false) "\"".toList = (.blank, [.str v]) :=
    fun _ => rfl
  simp only [Line.tokens, Line.run, lit, val, Piece.run, hbefore, enter, hafter, finish, pathTokens]
  rfl

/-- The owner's texts are inert in a rendered job. -/
structure InertOwnerText (sha256 : String → String) (platform : PlatformConfig)
    (a : JobArguments) (m : Manifest) (text : String) : Prop where
  /-- none of them ends a string or starts a template -/
  texts : ∀ s ∈ ownerTexts a m, InertText s.toList
  /-- the value of the health check's path is the configured one -/
  path : pathTokens m.healthPath <:+: Hcl.read text.toList
  /-- the job says what it is meant to say, and its structure has nothing of the owner -/
  reading : ∃ job, buildJob platform a m = .ok job ∧
    Hcl.read text.toList = job.tokens (job.identity sha256) ∧
    (Hcl.read text.toList).map Token.shape =
      jobShape job.frame job.values.bindingAliases.length job.values.platformEnvironment.length

theorem inert_of_mem_ownerTexts (hm : m.Checked) (h : buildJob platform a m = .ok job)
    (hpath : InertText m.healthPath.toList) : ∀ s ∈ ownerTexts a m, InertText s.toList := by
  obtain ⟨-, -, -, hslug, -⟩ := buildJob_ok h
  intro s hs
  rw [ownerTexts, List.mem_cons, List.mem_cons] at hs
  obtain rfl | rfl | hs := hs
  · exact (isPlain_of_isSlug hslug).plainText.inert
  · exact hpath
  · obtain ⟨b, hb, hs⟩ := List.mem_flatMap.mp hs
    obtain rfl | hs := List.mem_cons.mp hs
    · exact (isPlain_of_isResourceName (hm.names b hb)).plainText.inert
    · obtain ⟨o, ho, rfl⟩ := List.mem_map.mp hs
      exact (isPlain_of_isEnvKey (hm.targets b hb o ho)).plainText.inert

theorem infix_flatMap {α β : Type} {f : α → List β} {a : α} {l : List α} (h : a ∈ l) :
    f a <:+: l.flatMap f := by
  obtain ⟨s, t, rfl⟩ := List.append_of_mem h
  refine ⟨s.flatMap f, t.flatMap f, ?_⟩
  rw [List.flatMap_append, List.flatMap_cons, List.append_assoc]

/-- The line of the health path. -/
theorem path_mem_body (job : Job) :
    [lit "        path     = \"", val job.values.healthPath, lit "\""] ∈ job.bodyLines :=
  List.mem_append_left _ (List.mem_append_left _ (List.mem_append_right _
    (List.mem_append_right _ List.mem_cons_self)))

theorem path_mem_lines (job : Job) (identity : String) :
    [lit "        path     = \"", val job.values.healthPath, lit "\""] ∈ job.lines identity := by
  rw [Job.lines, Job.restLines]
  exact List.mem_append_right _ (List.mem_append_left _ (List.mem_append_left _
    (List.mem_append_left _ (List.mem_append_left _ (path_mem_body job)))))

theorem healthPath_of_build (h : buildJob platform a m = .ok job) :
    job.values.healthPath = m.healthPath := by
  obtain ⟨-, -, -, -, -, -, -, -, -, _, _, _, -, -, -, rfl⟩ := buildJob_ok h
  rfl

/-- The tokens of a line are among those of its job. -/
theorem infix_tokens (identity : String) {l : Line} (h : l ∈ job.bodyLines) :
    l.tokens <:+: job.tokens identity := by
  have hl : l ∈ job.head :: job.markerLines identity ++ job.bodyLines :=
    List.mem_append_right _ h
  refine (infix_flatMap hl).trans ?_
  rw [Job.tokens, List.append_assoc, List.append_assoc, List.append_assoc, List.append_assoc]
  exact (List.prefix_append _ _).isInfix

/-- **Owner text is inert in a job** exactly when the health path has no quote and starts no
template.  It is the one text of an owner that is written between quotes as it is; the others are
escaped there, or are of characters that mean nothing. -/
theorem inertOwnerText_iff {sha256 : String → String} (hsha : ∀ t, isSha256Hex (sha256 t) = true)
    {payload : Payload} {c : DeploymentConfiguration}
    {resources : String → Option (String × String)} {m : Manifest} {platform : PlatformConfig}
    {a : JobArguments} {text : String} (hc : parseConfiguration payload = .ok c)
    (hm : c.manifest resources = .ok m) (h : renderNomadJob sha256 platform a m = .ok text) :
    InertOwnerText sha256 platform a m text ↔
      '"' ∉ c.healthPath.toList ∧ introduces c.healthPath.toList = false := by
  have hchecked := manifest_checked hc hm
  obtain ⟨-, -, -, -, -, hhealth, -⟩ := manifest_ok hm
  rw [renderNomadJob] at h
  obtain ⟨job, hjob, h⟩ := bind_eq_ok.mp h
  cases h
  rw [← hhealth]
  constructor
  · intro hinert
    have hpath : InertText m.healthPath.toList :=
      hinert.texts _ (List.mem_cons_of_mem _ List.mem_cons_self)
    exact ⟨hpath.quote, hpath.template⟩
  · rintro ⟨hquote, htemplate⟩
    have hplain := plainJob_of_build hchecked hjob
    have hvalue := healthPath_of_build hjob
    have hnewline : '\n' ∉ m.healthPath.toList := hvalue ▸ hplain.healthPath
    have hpath : InertText m.healthPath.toList :=
      ⟨hquote, hchecked.backslash, hnewline, htemplate⟩
    have hread : Hcl.read (job.text sha256).toList = job.tokens (job.identity sha256) := by
      rw [Job.text, String.toList_ofList]
      exact read_text hplain (isPlain_of_isSha256Hex (hsha _)) (hvalue ▸ hpath)
    refine ⟨inert_of_mem_ownerTexts hchecked hjob hpath, ?_, job, hjob, hread, ?_⟩
    · rw [hread, ← hvalue, ← tokens_path]
      exact infix_tokens _ (path_mem_body job)
    · rw [hread, shape_tokens]

/-! ## Two health paths -/

/-- A configuration with a health path. -/
def pathConfiguration (path : String) : JsonText.Value :=
  .obj [(Text.ofString "schemaVersion", .int 1),
    (Text.ofString "build", .obj [(Text.ofString "runtime", jsonString "node"),
      (Text.ofString "packages", .arr [jsonString "."]),
      (Text.ofString "buildScript", .null),
      (Text.ofString "startScript", jsonString "start")]),
    (Text.ofString "runtime", .obj [(Text.ofString "port", .int 3000),
      (Text.ofString "healthPath", jsonString path)]),
    (Text.ofString "storageBindings", .arr [])]

theorem pathConfiguration_distinct (path : String) :
    distinctKeys (pathConfiguration path) = true := rfl

/-- What a configuration with a health path is read as. -/
def readPath (path : String) : DeploymentConfiguration :=
  ⟨1, "node", ["."], none, "start", 3000, path, []⟩

/-- The manifest of a configuration with a health path. -/
def pathManifest (path : String) : Manifest := ⟨"node", ["."], none, "start", 3000, path, []⟩

theorem parse_pathConfiguration {path : String}
    (h : Validation.healthPath (Text.ofString path) = .ok path) :
    parseConfiguration (.mapping (pathConfiguration path) (pathConfiguration_distinct path)) =
      .ok (readPath path) := by
  have hpackages : checkedPackages (.arr [jsonString "."]) = .ok ["."] := by decide +kernel
  have hstart : checkedScriptName (jsonString "start") = .ok "start" :=
    checkedString_eq_ok.mpr ⟨rfl, by decide +kernel⟩
  have hhealth : checkedHealthPath (jsonString path) = .ok path := by
    rw [checkedHealthPath, jsonString, asText, validated_eq_ok]
    exact h
  rw [parseConfiguration, Payload.load]
  show parseDocument (pathConfiguration path) = _
  simp only [parseDocument, bind_eq_ok, require_eq_ok]
  exact ⟨_, rfl, (), rfl, _, rfl, "node", checkedRuntime_eq_ok.mpr ⟨rfl, .inl rfl⟩, ["."], hpackages,
    none, rfl, "start", hstart, _, rfl, 3000, checkedPort_int (by decide), path, hhealth, [], rfl, rfl⟩

theorem manifest_readPath (path : String) :
    (readPath path).manifest (fun _ => none) = .ok (pathManifest path) := rfl

/-- A small platform. -/
def samplePlatform : PlatformConfig where
  platformNamespace := "platform"
  domain := "apps.example.org"
  datacenter := "dc1"
  region := "global"
  storageName := "storage.internal"
  storageAddress := "10.0.0.5"
  namespace_ok := by decide
  domain_ok := by decide
  datacenter_ok := by decide
  region_ok := by decide

/-- The arguments of a stable job. -/
def sampleArguments : JobArguments where
  applicationId := "00000000-0000-4000-8000-000000000001"
  applicationSlug := "shop"
  image := "registry.internal:5000/apps/shop@sha256:" ++
    "cc63cf4a8d9554df7424de977b66d9b6327e0a56344b84b592e08836e1a4c04a"
  cpuMhz := 500
  memoryMib := 512
  sourceCommit := "cc63cf4a8d9554df7424de977b66d9b6327e0a56"
  recipeHash := "e72d7124e0f774c2de15cf9b2a33446988b83d29ccb478aacf073be5a58c0ea8"

example : isSlug sampleArguments.applicationSlug = true := by decide +kernel

/-- The digest of the job of the sample arguments with the health path `/health`. -/
def sampleHash (_ : String) : String :=
  "c488ea1cb6005f8e6db6010e26f926d616751cd460b257b69cc77be39d7be54f"

/-- The digest of the job whose health path has a quote. -/
def quotedHash (_ : String) : String :=
  "3de97ab5fe6b42dbf7465e99c718933bb269a5c2140c794f9890c4eb5fecb9f0"

/-- An image of which the parts are known is a digest pin. -/
theorem isOciDigestPin_of_parts (name digest : List Char)
    (hs : s.toList.splitOn '@' = [name, "sha256:".toList ++ digest])
    (hlength : s.toList.length ≤ 512) (hcount : 2 ≤ (name.splitOn '/').length)
    (hcomponents : (name.splitOn '/').all (fun c => !c.isEmpty && c.all fun d => !isSpace d) = true)
    (hdigest : digest.length = 64) (hhex : digest.all isHexLower = true) :
    isOciDigestPin s = true := by
  have hsha : isSha256Hex (String.ofList digest) = true := by
    rw [isSha256Hex, ← String.length_toList, String.toList_ofList, hdigest, hhex]
    rfl
  have hseven : ("sha256:".toList).length = 7 := by decide
  have htake : ("sha256:".toList ++ digest).take 7 = "sha256:".toList := by
    rw [← hseven, List.take_left]
  have hdrop : ("sha256:".toList ++ digest).drop 7 = digest := by
    rw [← hseven, List.drop_left]
  rw [String.length_toList] at hlength
  rw [isOciDigestPin, hs]
  simp only [htake, hdrop, hsha, hcomponents, hcount, hlength, decide_true, beq_self_eq_true,
    Bool.and_self]

theorem isOciDigestPin_sampleArguments : isOciDigestPin sampleArguments.image = true := by
  refine isOciDigestPin_of_parts "registry.internal:5000/apps/shop".toList
    "cc63cf4a8d9554df7424de977b66d9b6327e0a56344b84b592e08836e1a4c04a".toList ?_ ?_ ?_ ?_ ?_ ?_
  all_goals
    simp (disch := rfl) only [sampleArguments, String.toList_append, toList_of_eq_ofList]
    decide +kernel

/-- A job is built of the sample arguments, with any image that is a pin and any priority. -/
theorem exists_job {image : String} {priority : Int} (path : String)
    (ha : a = { sampleArguments with image := image, routePriority := priority })
    (himage : isOciDigestPin image = true) (hpriority : 100 ≤ priority ∧ priority ≤ 1000000000) :
    ∃ job, buildJob samplePlatform a (pathManifest path) = .ok job := by
  have hid : isUuid "00000000-0000-4000-8000-000000000001" = true := by decide +kernel
  have hslug : isSlug "shop" = true := by decide +kernel
  have hcommit : isCommit "cc63cf4a8d9554df7424de977b66d9b6327e0a56" = true := by
    rw [isCommit, ← String.length_toList]
    simp (disch := rfl) only [toList_of_eq_ofList]
    decide +kernel
  have hrecipe : isSha256Hex
      "e72d7124e0f774c2de15cf9b2a33446988b83d29ccb478aacf073be5a58c0ea8" = true := by
    rw [isSha256Hex, ← String.length_toList]
    simp (disch := rfl) only [toList_of_eq_ofList]
    decide +kernel
  subst ha
  simp only [buildJob, check_bind_eq_ok]
  refine ⟨_, require_eq_ok.mpr hid, require_eq_ok.mpr hid, require_eq_ok.mpr hid,
    require_eq_ok.mpr hslug, rfl, require_eq_ok.mpr ?_, require_eq_ok.mpr himage, rfl, rfl,
    require_eq_ok.mpr hcommit, require_eq_ok.mpr hrecipe, rfl⟩
  rw [Bool.and_eq_true, decide_eq_true_eq, decide_eq_true_eq]
  exact hpriority

example : isUuid sampleArguments.applicationId = true := by decide +kernel

/-- What is made of a configuration with a health path. -/
def renderPath (sha256 : String → String) (path : String) :
    Except Error (DeploymentConfiguration × Manifest × String) := do
  let c ← parseConfiguration
    (.mapping (pathConfiguration path) (pathConfiguration_distinct path))
  let m ← c.manifest fun _ => none
  let text ← renderNomadJob sha256 samplePlatform sampleArguments m
  return (c, m, text)

theorem renderPath_eq_ok {sha256 : String → String} {path : String}
    {x : DeploymentConfiguration × Manifest × String} (h : renderPath sha256 path = .ok x) :
    parseConfiguration (.mapping (pathConfiguration path) (pathConfiguration_distinct path)) =
        .ok x.1 ∧
      (x.1.manifest fun _ => none) = .ok x.2.1 ∧
      renderNomadJob sha256 samplePlatform sampleArguments x.2.1 = .ok x.2.2 := by
  simp only [renderPath, bind_eq_ok] at h
  obtain ⟨c, hc, m, hm, text, htext, h⟩ := h
  cases h
  exact ⟨hc, hm, htext⟩

/-- A text is rendered with an accepted health path. -/
theorem exists_renderPath (sha256 : String → String) (path : String)
    (h : Validation.healthPath (Text.ofString path) = .ok path) :
    ∃ text, renderPath sha256 path = .ok (readPath path, pathManifest path, text) := by
  obtain ⟨job, hjob⟩ := exists_job (a := sampleArguments) path rfl isOciDigestPin_sampleArguments
    (by decide)
  have htext : renderNomadJob sha256 samplePlatform sampleArguments (pathManifest path) =
      .ok (job.text sha256) := by
    rw [renderNomadJob, hjob]
    rfl
  refine ⟨job.text sha256, ?_⟩
  simp only [renderPath, bind_eq_ok]
  exact ⟨_, parse_pathConfiguration h, _, manifest_readPath path, _, htext, rfl⟩

/-- The line of the health path is in the text of its job. -/
theorem path_infix_text {sha256 : String → String} {text : String}
    (h : renderNomadJob sha256 platform a m = .ok text) :
    ("        path     = \"" ++ m.healthPath ++ "\"\n").toList <:+: text.toList := by
  rw [renderNomadJob] at h
  obtain ⟨job, hjob, h⟩ := bind_eq_ok.mp h
  cases h
  have hline := List.mem_map_of_mem (f := Line.text) (path_mem_lines job (job.identity sha256))
  have hinfix := infix_flatMap (f := fun l : List Char => l ++ ['\n']) hline
  rw [healthPath_of_build hjob] at hinfix
  have htext : ("        path     = \"" ++ m.healthPath ++ "\"\n").toList =
      Line.text [lit "        path     = \"", val m.healthPath, lit "\""] ++ ['\n'] := by
    simp [Line.text, Piece.text, lit, val]
  rw [htext, Job.text, String.toList_ofList, joinLines]
  exact hinfix

example : (readLine none "path".toList).1 = [.word "path".toList, .newline] := by decide +kernel

/-- A health path with a quote is accepted, and its text is not inert in the job. -/
theorem health_path_ends_block :
    ∃ c m text,
      parseConfiguration (.mapping (pathConfiguration "/\"\x7dx\x7by=\"")
        (pathConfiguration_distinct _)) = .ok c ∧
      (c.manifest fun _ => none) = .ok m ∧
      renderNomadJob quotedHash samplePlatform sampleArguments m = .ok text ∧
      "        path     = \"/\"\x7dx\x7by=\"\"\n".toList <:+: text.toList ∧
      ¬ InertOwnerText quotedHash samplePlatform sampleArguments m text := by
  obtain ⟨text, hx⟩ := exists_renderPath quotedHash "/\"\x7dx\x7by=\"" (by decide +kernel)
  obtain ⟨hc, hm, htext⟩ := renderPath_eq_ok hx
  have hline : "        path     = \"/\"\x7dx\x7by=\"\"\n".toList =
      ("        path     = \"" ++ "/\"\x7dx\x7by=\"" ++ "\"\n").toList := by
    rw [String.toList_append, String.toList_append]
    simp (disch := rfl) only [toList_of_eq_ofList]
    rfl
  have hinfix := path_infix_text htext
  rw [show (pathManifest "/\"\x7dx\x7by=\"").healthPath = "/\"\x7dx\x7by=\"" from rfl,
    ← hline] at hinfix
  refine ⟨_, _, text, hc, hm, htext, hinfix, fun hinert => ?_⟩
  have hquote : '"' ∉ "/\"\x7dx\x7by=\"".toList :=
    (hinert.texts _ (List.mem_cons_of_mem _ List.mem_cons_self)).quote
  exact absurd hquote (by decide)

/-- The owner's texts are inert in a job with an ordinary health path. -/
theorem ordinary_health_path_inert :
    ∃ m text, InertOwnerText sampleHash samplePlatform sampleArguments m text ∧
      m.healthPath = "/health" := by
  obtain ⟨text, hx⟩ := exists_renderPath sampleHash "/health" (by decide +kernel)
  obtain ⟨hc, hm, htext⟩ := renderPath_eq_ok hx
  have hsha : ∀ t, isSha256Hex (sampleHash t) = true := fun t => by
    rw [sampleHash]
    decide
  have hpath : '"' ∉ "/health".toList ∧ introduces "/health".toList = false := by decide
  exact ⟨_, text, (inertOwnerText_iff hsha hc hm htext).mpr hpath, rfl⟩

end Controller
end OpenstackPlatform
