import OpenstackPlatform.Controller.StorageHostsRewrite

/-!
# The upgrade of a saved job

A job whose Docker configuration stands after its marker block gets the line of the storage host and
a new hash.  It is accepted again, and its ID, its image, its placement, its route marker and its
route priority are what they were; the upgraded job has the line and is left as it is.

* `AcceptedText`, `others_none`, `search_upgraded`: the marker blocks of the two texts.
* `DockerConfig`, `Upgradable`: where the image and the `extra_hosts` lines may stand.
* `rewriteHosts_eq`: what is written.
* `SameReadings`, `storageHostsJob_upgrade`: the main result.
* `storageHostsJob_misplaced`: a job with its image before its marker block.
-/

namespace OpenstackPlatform
namespace Controller

open Library Library.Hcl Validation

/-! ## The blocks of a text -/

theorem markersFrom_map : ∀ (t before : List Char),
    (Helper.markersFrom before t).map (fun x => (x.1, x.2.1)) = t.tails.filterMap identityAt
  | [], _ => rfl
  | c :: t, before => by
    have ih := markersFrom_map t (c :: before)
    rw [Helper.markersFrom, List.tails_cons, List.filterMap_cons, identityAt]
    cases h : Helper.markerAt (c :: t) with
    | none => exact ih
    | some x =>
      obtain ⟨hash, image, rest⟩ := x
      simp only [List.map_cons, ih, Option.map_some]

/-- The first block of a text with one block. -/
theorem searchMarker_of_search {hash image : String} : ∀ {t before : List Char},
    t.tails.filterMap identityAt = [(hash, image)] → ∃ a b rest, t = a ++ (b ++ rest) ∧
      IsBlock b (hash, image) ∧ searchMarker before t = some ⟨before.reverse ++ a, b, hash, rest⟩
  | [], _, h => by
    have hnil : ([] : List Char).tails.filterMap identityAt = [] := rfl
    rw [hnil] at h
    cases h
  | c :: t, before, h => by
    rw [List.tails_cons, List.filterMap_cons, identityAt] at h
    cases hm : Helper.markerAt (c :: t) with
    | none =>
      rw [hm] at h
      obtain ⟨a, b, rest, rfl, hb, hsearch⟩ := @searchMarker_of_search hash image t (c :: before) h
      refine ⟨c :: a, b, rest, rfl, hb, ?_⟩
      rw [searchMarker, hm]
      simp only [hsearch, List.reverse_cons, List.append_assoc, List.singleton_append]
    | some x =>
      obtain ⟨hash', image', rest⟩ := x
      rw [hm] at h
      simp only [Option.map_some] at h
      obtain ⟨rfl, rfl⟩ := Prod.mk.inj (List.cons.inj h).1
      obtain ⟨b, hb, ht⟩ := markerAt_eq_some.mp hm
      refine ⟨[], b, rest, ht, hb, ?_⟩
      have hlength : (c :: t).length - rest.length = b.length := by
        rw [ht, List.length_append]
        omega
      rw [searchMarker, hm]
      simp only [hlength, List.append_nil]
      rw [ht, List.take_left]

/-- What an accepted job is. -/
structure AcceptedText (sha256 : String → String) (job hash image : String) : Prop where
  guard : Helper.boundedText "Nomad job" job 262144 = .ok ()
  search : job.toList.tails.filterMap identityAt = [(hash, image)]
  pin : Helper.checkOciDigestPin "Nomad candidate image" image = .ok ()

variable {sha256 : String → String} {job hash image : String}

theorem acceptedText_of_identity
    (h : Helper.nomadCandidateIdentity sha256 job = .ok (hash, image)) :
    AcceptedText sha256 job hash image := by
  rw [Helper.nomadCandidateIdentity] at h
  obtain ⟨_, hguard, h⟩ := Checks.bind_ok_iff.mp h
  split at h
  · rename_i hash' image' unmarked hmarkers
    obtain ⟨_, -, h⟩ := Checks.bind_ok_iff.mp h
    obtain ⟨_, hpin, h⟩ := Checks.bind_ok_iff.mp h
    cases h
    refine ⟨hguard, ?_, hpin⟩
    rw [← markersFrom_map _ [], hmarkers]
    rfl
  · cases h

variable {a b rest : List Char}

/-- A text with one block that carries the hash of what stands around it is accepted. -/
theorem identity_of_search
    (hguard : Helper.boundedText "Nomad job" (String.ofList (a ++ (b ++ rest))) 262144 = .ok ())
    (hpin : Helper.checkOciDigestPin "Nomad candidate image" image = .ok ())
    (hblock : IsBlock b (sha256 (String.ofList (a ++ rest)), image))
    (hsearch : (a ++ (b ++ rest)).tails.filterMap identityAt =
      [(sha256 (String.ofList (a ++ rest)), image)]) :
    Helper.nomadCandidateIdentity sha256 (String.ofList (a ++ (b ++ rest))) =
      .ok (sha256 (String.ofList (a ++ rest)), image) := by
  have hmarker := markerAt_eq_some.mpr ⟨b, hblock, (rfl : b ++ rest = b ++ rest)⟩
  have hne : b ++ rest ≠ [] := by
    obtain ⟨m, rfl, -⟩ := hblock.tail
    intro he
    exact List.cons_ne_nil _ _ (List.append_eq_nil_iff.mp (List.append_eq_nil_iff.mp he).1).2
  have hmem := Helper.mem_markersFrom hne hmarker a []
  rw [← markersFrom_map _ []] at hsearch
  obtain ⟨x, hx, -⟩ := List.map_eq_singleton_iff.mp hsearch
  rw [hx, List.mem_singleton] at hmem
  rw [Helper.nomadCandidateIdentity, hguard, String.toList_ofList, hx, ← hmem]
  simp only [List.reverse_nil, List.nil_append]
  show (Helper.require _ _ >>= fun _ => _) = _
  rw [beq_self_eq_true, hpin]
  rfl

variable {id : String × String}

/-- A text with one block has no other. -/
theorem others_none {t : List Char} (h : t.tails.filterMap identityAt = [id]) (hb : IsBlock b id)
    (ht : b ++ rest <:+ t) {s : List Char} (hs : s <:+ t) (hne : s ≠ b ++ rest) :
    identityAt s = none := by
  by_contra hsome
  obtain ⟨x, hx⟩ := Option.ne_none_iff_exists'.mp hsome
  exact hne (suffix_unique h hs ht hx ((identityAt_pattern _ _).mpr ⟨b, rest, hb, rfl⟩))

theorem hashField_append (w w' : List Char) (hash : String) (z rest : List Char) :
    hashField w w' hash z ++ rest = hashField w w' hash (z ++ rest) := by
  simp only [hashField, List.append_assoc, List.cons_append]

/-- No block begins within another one. -/
theorem IsBlock.not_inside {s : List Char} (h : IsBlock b id) (hs : s <:+ b) (hne : s ≠ [])
    (hne' : s ≠ b) (r : List Char) : identityAt (s ++ r) = none := by
  by_contra hsome
  obtain ⟨id', hid⟩ := Option.ne_none_iff_exists'.mp hsome
  obtain ⟨m, t, hm, hwhole⟩ := (identityAt_pattern _ _).mp hid
  obtain ⟨m', rfl, -⟩ := hm.tail
  have hline : '\n' ∈ s := by
    have hlast : s.getLast? = some '\n' := by
      obtain ⟨s₁, s₂, s₃, s₄, s₅, _, _, -, -, -, -, -, rfl⟩ := h
      rw [getLast?_suffix hs hne]
      simp only [← List.append_assoc]
      rw [List.getLast?_append, show blockEnd.getLast? = some '\n' by decide, Option.some_or]
    exact List.mem_of_getLast? hlast
  obtain ⟨s₁, s₂, rfl, hs₁⟩ := List.eq_append_cons_of_mem hline
  have hfirst : s₁ ++ '\n' :: (s₂ ++ r) = Helper.metaLine ++ '\n' :: (m' ++ t) := by
    rw [← List.cons_append, ← List.append_assoc, hwhole]
    simp only [List.append_assoc, List.cons_append]
  obtain ⟨rfl, -⟩ := append_cons_inj hs₁ (by decide) hfirst
  obtain ⟨u, hu⟩ := hs
  have hne'' : u ≠ [] := by
    rintro rfl
    exact hne' hu
  refine h.not_meta hne'' ⟨s₂, ?_⟩
  rw [← hu]
  simp only [List.append_assoc, List.cons_append, List.nil_append]

/-- The key of a hash. -/
def hashKey : List Char := "    platform_candidate_job_sha256".toList

theorem blockHead_eq : blockHead = (Helper.metaLine ++ ['\n']) ++ hashKey := rfl

/-- With another hash, and other ordinary lines after the image, a text still has one block. -/
theorem search_upgraded {w w' z p image after : List Char} {hash' pin : String}
    {hosts hosts' : List (List Char)}
    (hblock : IsBlock (blockHead ++ hashField w w' hash z) (hash, pin))
    (hblock' : IsBlock (blockHead ++ hashField w w' hash' z) (hash', pin))
    (hquote : '"' ∉ image) (hline : '\n' ∉ image)
    (hhosts : ∀ l ∈ hosts, '\n' ∉ l ∧ Ordinary l) (hhosts' : ∀ l ∈ hosts', '\n' ∉ l ∧ Ordinary l)
    (h : (a ++ ((blockHead ++ hashField w w' hash z) ++ (p ++ (imageLine image ++
      '\n' :: (joinLines hosts ++ after))))).tails.filterMap identityAt = [(hash, pin)]) :
    (a ++ ((blockHead ++ hashField w w' hash' z) ++ (p ++ (imageLine image ++
      '\n' :: (joinLines hosts' ++ after))))).tails.filterMap identityAt = [(hash', pin)] := by
  have hother := fun {s} => others_none h hblock (List.suffix_append a _) (s := s)
  have hhead : ∀ (hash : String) (r : List Char), (blockHead ++ hashField w w' hash z) ++ r =
      (Helper.metaLine ++ ['\n']) ++
        (hashKey ++ hashField w w' hash (z ++ r)) := by
    intro hash r
    rw [List.append_assoc, hashField_append, blockHead_eq, List.append_assoc]
  -- no block begins before the block
  rw [search_of_none fun s hne hs => ?_]
  · -- one begins with the block, and none within it
    obtain ⟨m, hm⟩ : ∃ m, blockHead ++ hashField w w' hash' z = ' ' :: m := ⟨_, rfl⟩
    have hfound := (identityAt_pattern _ _).mpr ⟨_, p ++ (imageLine image ++
      '\n' :: (joinLines hosts' ++ after)), hblock', rfl⟩
    have hinside : ∀ s, s ≠ [] → s <:+ m → ∀ r, identityAt (s ++ r) = none := by
      intro s hne hs
      refine hblock'.not_inside (hm ▸ hs.trans (List.suffix_cons ' ' m)) hne ?_
      rintro rfl
      have := hs.length_le
      rw [hm, List.length_cons] at this
      omega
    rw [hm, List.cons_append] at hfound ⊢
    rw [List.tails_cons, List.filterMap_cons, hfound]
    simp only
    rw [search_of_none fun s hne hs => hinside s hne hs _,
      identityAt_sealing.search_tail hquote hline hhosts' hhosts]
    congr 1
    -- none begins after the block, as none did before
    refine List.filterMap_eq_nil_iff.mpr fun s hs => ?_
    have hs := (List.mem_tails s _).mp hs
    refine hother ((hs.trans (List.suffix_append _ _)).trans (List.suffix_append a _)) ?_
    rintro rfl
    have hle := hs.length_le
    rw [List.length_append, List.length_append, blockHead_eq] at hle
    simp only [List.length_append, List.length_singleton] at hle
    omega
  · have hold : identityAt (s ++ ((blockHead ++ hashField w w' hash z) ++ (p ++ (imageLine image ++
        '\n' :: (joinLines hosts ++ after))))) = none := by
      refine hother ?_ ?_
      · obtain ⟨u, rfl⟩ := hs
        exact ⟨u, by simp only [List.append_assoc]⟩
      · exact fun he => hne (List.append_left_eq_self.mp he)
    rw [hhead, ← List.append_assoc] at hold ⊢
    rw [identityAt_pattern.sealed (fun m id hm => hm.not_meta hne) _ _]
    exact hold

/-! ## The hash -/

/-- The first occurrence of a text is replaced. -/
theorem replaceFirst_append {old new t : List Char} (hold : old ≠ []) : ∀ {u : List Char},
    (∀ s, s ≠ [] → s <:+ u → ¬ old <+: s ++ (old ++ t)) →
      replaceFirst old new (u ++ (old ++ t)) = u ++ (new ++ t)
  | [], _ => by
    obtain ⟨c, l, rfl⟩ := List.exists_cons_of_ne_nil hold
    have hprefix : ((c :: l).isPrefixOf (c :: (l ++ t))) = true :=
      List.isPrefixOf_iff_prefix.mpr ⟨t, rfl⟩
    rw [List.nil_append, List.cons_append, replaceFirst, if_pos hprefix, ← List.cons_append,
      List.drop_left, List.nil_append]
  | c :: u, h => by
    have hnot : ¬ (old.isPrefixOf (c :: (u ++ (old ++ t)))) = true := fun hp =>
      h (c :: u) (List.cons_ne_nil c u) (List.suffix_refl _) (List.isPrefixOf_iff_prefix.mp hp)
    rw [List.cons_append, replaceFirst, if_neg hnot,
      replaceFirst_append hold fun s hne hs => h s hne (hs.trans (List.suffix_cons c u)),
      List.cons_append]

/-- The hash of a block is replaced. -/
theorem replaceFirst_block {w w' z : List Char} (hw : ∀ c ∈ w, isSpace c = true)
    (hw' : ∀ c ∈ w', isSpace c = true) (hhash : isSha256Hex hash = true) (hash' : String) :
    replaceFirst hash.toList hash'.toList (blockHead ++ hashField w w' hash z) =
      blockHead ++ hashField w w' hash' z := by
  have hlength : hash.toList.length = 64 := by
    rw [isSha256Hex, Bool.and_eq_true, beq_iff_eq] at hhash
    rw [String.length_toList]
    exact hhash.1
  have hhex : ∀ c ∈ hash.toList, isHexLower c = true := by
    rw [isSha256Hex, Bool.and_eq_true] at hhash
    exact List.all_eq_true.mp hhash.2
  have hopen : ∀ c ∈ w ++ '=' :: (w' ++ ['"']), isHexLower c = false := by
    intro c hc
    have hspace : ∀ d, isSpace d = true → isHexLower d = false := by
      intro d hd
      by_contra hh
      rw [isSpace_of_isHexLower (by simpa using hh)] at hd
      cases hd
    simp only [List.mem_append, List.mem_cons, List.not_mem_nil, or_false] at hc
    obtain hc | rfl | hc | rfl := hc
    · exact hspace c (hw c hc)
    · decide
    · exact hspace c (hw' c hc)
    · decide
  have hsplit : ∀ h : String, blockHead ++ hashField w w' h z =
      (blockHead ++ (w ++ '=' :: (w' ++ ['"']))) ++ (h.toList ++ '"' :: '\n' :: z) := by
    intro h
    rw [hashField]
    simp only [List.append_assoc, List.cons_append, List.nil_append]
  have hne : hash.toList ≠ [] := fun he => by rw [he] at hlength; cases hlength
  have hshort : blockHead.length < 63 := by decide
  rw [hsplit, hsplit]
  refine replaceFirst_append hne fun s hs hsuffix hprefix => ?_
  obtain ⟨c, y, hy⟩ := List.exists_cons_of_ne_nil
    (show w ++ '=' :: (w' ++ ['"']) ≠ [] by simp)
  rw [hy] at hsuffix hopen
  obtain hin | ⟨l, rfl⟩ := List.suffix_or_suffix_of_suffix hsuffix
    (List.suffix_append blockHead (c :: y))
  · -- a text that begins after the key begins with no digit
    obtain ⟨d, s, rfl⟩ := List.exists_cons_of_ne_nil hs
    obtain ⟨e, l, he⟩ := List.exists_cons_of_ne_nil hne
    have hfalse := hopen d (hin.subset List.mem_cons_self)
    obtain ⟨t, ht⟩ := hprefix
    rw [he] at ht hhex
    obtain ⟨rfl, -⟩ := List.cons.inj ht
    rw [hhex _ List.mem_cons_self] at hfalse
    cases hfalse
  · -- one that begins in the key is too short
    have hl : l.length ≤ blockHead.length := by
      have := hsuffix.length_le
      rw [List.length_append, List.length_append] at this
      omega
    have hwhole : l ++ [c] <+: (l ++ c :: y) ++ (hash.toList ++ '"' :: '\n' :: z) :=
      ⟨y ++ (hash.toList ++ '"' :: '\n' :: z), by simp⟩
    obtain hp | hp := List.prefix_or_prefix_of_prefix hwhole hprefix
    · have hfalse := hopen c List.mem_cons_self
      rw [hhex c (hp.subset (List.mem_append_right _ List.mem_cons_self))] at hfalse
      cases hfalse
    · have := hp.length_le
      rw [hlength, List.length_append, List.length_singleton] at this
      omega

/-! ## The Docker configuration -/

/-- A line that `^        extra_hosts\s*=.*\n` matches. -/
def IsHostsLine (l : List Char) : Prop :=
  ∃ w v : List Char, (∀ c ∈ w, isSpace c = true) ∧ '\n' ∉ l ∧
    l = "        extra_hosts".toList ++ (w ++ '=' :: v)

/-- What stands after a marker block: the line of an image, and lines of hosts after it. -/
structure DockerConfig where
  before : List Char
  image : List Char
  hosts : List (List Char)
  after : List Char
  deriving DecidableEq, Repr

def DockerConfig.text (d : DockerConfig) (hosts : List (List Char)) : List Char :=
  d.before ++ (imageLine d.image ++ '\n' :: (joinLines hosts ++ d.after))

/-- The image of a job stands after its marker block, and all lines of hosts right after the image;
the readers find nothing in these. -/
structure Upgradable (marker : MarkedText) (d : DockerConfig) : Prop where
  after : marker.after = d.text d.hosts
  image : d.image ≠ [] ∧ '"' ∉ d.image ∧ '\n' ∉ d.image
  hosts : ∀ l ∈ d.hosts, IsHostsLine l ∧ Ordinary l
  noHosts : NoMatch hostsAt none (marker.before ++ (d.before ++ (imageLine d.image ++ ['\n'])))
    (joinLines d.hosts ++ d.after)
  noHostsAfter : NoMatch hostsAt (some '\n') d.after []
  noImage : NoMatch imageAt none (marker.before ++ d.before) (imageLine d.image ++ '\n' :: d.after)
  noImageAfter : NoMatch imageAt (some '\n') d.after []

variable {l : List Char}

/-- The text of a line of hosts ends at its line end. -/
theorem hostsAt_line (h : IsHostsLine l) (r : List Char) :
    hostsAt (some '\n') (l ++ '\n' :: r) = some (l ++ ['\n']).length := by
  obtain ⟨w, v, hw, hline, rfl⟩ := h
  have hv : ∀ c ∈ v, (c != '\n') = true := by
    intro c hc
    rw [bne_iff_ne]
    rintro rfl
    exact hline (by simp [hc])
  have hvalue : (v ++ '\n' :: r).dropWhile (fun c => c != '\n') = '\n' :: r := by
    rw [List.dropWhile_append_of_pos hv, List.dropWhile_cons_of_neg (by decide)]
  have hequal : Helper.afterLiteral "=" ('=' :: (v ++ '\n' :: r)) = some (v ++ '\n' :: r) :=
    Helper.afterLiteral_append "=" _
  have hend : Helper.afterLiteral "\n" ('\n' :: r) = some r := Helper.afterLiteral_append "\n" r
  have hall : (some '\n').all (· == '\n') = true := rfl
  have hblank := fun t => dropWhile_isSpace (t := t) hw (by decide : isSpace '=' = false)
  rw [hostsAt, if_pos hall]
  simp only [List.append_assoc, List.cons_append, Helper.afterLiteral_append,
    Option.bind_eq_bind, Option.bind_some, hblank, hequal, hvalue, hend]
  simp only [List.length_append, List.length_cons, List.length_nil, Option.pure_def,
    Option.some.injEq]
  omega

/-- All lines of hosts are removed. -/
theorem subn_hosts {t : List Char} : ∀ {hosts : List (List Char)},
    (∀ l ∈ hosts, IsHostsLine l ∧ Ordinary l) →
      (subn hostsAt (fun _ => []) 0 (some '\n') (joinLines hosts ++ t)).1 =
        (subn hostsAt (fun _ => []) 0 (some '\n') t).1
  | [], _ => rfl
  | l :: hosts, h => by
    have hline := hostsAt_line (h l List.mem_cons_self).1 (joinLines hosts ++ t)
    have hassoc : ∀ r : List Char, l ++ '\n' :: r = (l ++ ['\n']) ++ r := by simp
    rw [hassoc] at hline
    rw [joinLines_cons, List.append_assoc, List.cons_append, hassoc,
      subn_match (by simp) hline, lastChar_append, lastChar_cons, lastChar_nil]
    simp only [List.nil_append]
    exact subn_hosts fun l' hl' => h l' (List.mem_cons_of_mem _ hl')

/-- The line of an image is found. -/
theorem imageAt_line {image : List Char} (hne : image ≠ []) (hquote : '"' ∉ image)
    (hline : '\n' ∉ image) (previous : Option Char) (r : List Char) :
    imageAt previous (imageLine image ++ '\n' :: r) = some (imageLine image ++ ['\n']).length := by
  have hsplit : imageLine image ++ '\n' :: r = (imageKey ++ ['"']) ++ (image ++ '"' :: '\n' :: r) := by
    rw [imageLine]
    simp only [List.append_assoc, List.cons_append, List.nil_append]
  have hopen : ∀ r, Helper.afterLiteral "        image           = \"" ((imageKey ++ ['"']) ++ r) =
      some r := Helper.afterLiteral_append _
  have hunquoted : Helper.unquoted (image ++ '"' :: '\n' :: r) = image := by
    refine Helper.takeWhile_append_cons (fun c hc => ?_) (by decide)
    rw [Bool.and_eq_true, bne_iff_ne, bne_iff_ne]
    exact ⟨fun he => hquote (he ▸ hc), fun he => hline (he ▸ hc)⟩
  have hclose : Helper.afterLiteral "\"\n" ('"' :: '\n' :: r) = some r :=
    Helper.afterLiteral_append "\"\n" r
  have hempty : image.isEmpty = false := by simpa using hne
  rw [hsplit, imageAt, hopen]
  simp only [Option.bind_eq_bind, Option.bind_some, hunquoted, hempty, Bool.false_eq_true, if_false,
    List.drop_left, hclose]
  simp only [imageLine, List.length_append, List.length_cons, List.length_nil, Option.pure_def,
    Option.some.injEq]
  omega

/-- The text around the marker block is changed after the image. -/
theorem subn_raw {marker : MarkedText} {d : DockerConfig} (h : Upgradable marker d) (line : String) :
    subn imageAt (fun m => m ++ (line.toList ++ ['\n'])) 0 none
        (subn hostsAt (fun _ => []) 0 none (marker.before ++ marker.after)).1 =
      (marker.before ++ d.text [line.toList], 1) := by
  obtain ⟨hne, hquote, hline⟩ := h.image
  have hraw : marker.before ++ marker.after =
      (marker.before ++ (d.before ++ (imageLine d.image ++ ['\n']))) ++
        (joinLines d.hosts ++ d.after) := by
    rw [h.after, DockerConfig.text]
    simp only [List.append_assoc, List.cons_append, List.nil_append]
  have hlast : ∀ previous, lastChar previous (imageLine d.image ++ ['\n']) = some '\n' := by
    intro previous
    rw [lastChar_append, lastChar_cons, lastChar_nil]
  have hremoved : (subn hostsAt (fun _ => []) 0 none (marker.before ++ marker.after)).1 =
      (marker.before ++ d.before) ++ (imageLine d.image ++ '\n' :: d.after) := by
    rw [hraw, subn_of_noMatch h.noHosts]
    simp only [lastChar_append _ none, lastChar_append _ (lastChar none marker.before), hlast]
    rw [subn_hosts h.hosts, subn_of_noMatch_all h.noHostsAfter]
    simp only [List.append_assoc, List.cons_append, List.nil_append]
  have hassoc : ∀ r : List Char, imageLine d.image ++ '\n' :: r =
      (imageLine d.image ++ ['\n']) ++ r := by simp
  have hmatch := imageAt_line hne hquote hline (lastChar none (marker.before ++ d.before)) d.after
  rw [hassoc] at hmatch
  rw [hremoved, subn_of_noMatch h.noImage, hassoc, subn_match (by simp) hmatch, hlast,
    subn_of_noMatch_all h.noImageAfter, DockerConfig.text]
  simp only [joinLines_cons, joinLines_nil, List.append_assoc, List.cons_append, List.nil_append]

/-- What is written: the text around the block is changed after the image, and the block has the hash
of this text. -/
theorem rewriteHosts_eq {line : String} {marker : MarkedText} {d : DockerConfig}
    (hsearch : searchMarker [] job.toList = some marker) (h : Upgradable marker d) :
    rewriteHosts sha256 line job = .ok (String.ofList (marker.before ++
      (replaceFirst marker.hash.toList
          (sha256 (String.ofList (marker.before ++ d.text [line.toList]))).toList marker.block ++
        d.text [line.toList]))) := by
  rw [rewriteHosts, hsearch]
  simp only [subn_raw h line, List.take_left, List.drop_left, List.append_assoc]
  rfl

/-! ## The limits of a text -/

theorem boundedText_eq_ok {field value : String} {maximum : Nat} :
    Helper.boundedText field value maximum = .ok () ↔
      '\x00' ∉ value.toList ∧ value.utf8ByteSize ≤ maximum := by
  rw [Helper.boundedText, Checks.bind_ok_iff]
  simp [List.contains_eq_mem]

theorem byteSize_hash (h : isSha256Hex hash = true) : byteSize hash.toList = 64 := by
  rw [isSha256Hex, Bool.and_eq_true, beq_iff_eq, List.all_eq_true] at h
  have hone : ∀ l : List Char, (∀ c ∈ l, isHexLower c = true) → byteSize l = l.length := by
    intro l
    induction l with
    | nil => exact fun _ => rfl
    | cons c l ih =>
      intro hl
      have hc : c.utf8Size = 1 := by
        have hhex := hl c List.mem_cons_self
        have hle : c.val.toNat ≤ 127 := by
          simp only [isHexLower, Char.isDigit, Bool.or_eq_true, Bool.and_eq_true,
            decide_eq_true_eq, Char.le_def, UInt32.le_iff_toNat_le] at hhex
          obtain ⟨-, h'⟩ | ⟨-, h'⟩ := hhex
          · exact le_trans h' (by decide)
          · exact le_trans h' (by decide)
        rw [Char.utf8Size, if_pos]
        exact UInt32.le_iff_toNat_le.mpr hle
      have ih := ih fun d hd => hl d (List.mem_cons_of_mem _ hd)
      rw [byteSize] at ih ⊢
      rw [List.map_cons, List.sum_cons, hc, ih, List.length_cons]
      omega
  rw [hone _ h.2, String.length_toList, h.1]

/-! ## The first line -/

/-- A literal in a text's first line. -/
theorem prefix_firstLine {literal r : List Char} (hliteral : '\n' ∉ literal) :
    literal <+: l ++ '\n' :: r ↔ literal <+: l := by
  refine ⟨fun h => ?_, fun h => h.trans (List.prefix_append _ _)⟩
  have hline : l ++ ['\n'] <+: l ++ '\n' :: r := ⟨r, by simp⟩
  obtain hp | hp := List.prefix_or_prefix_of_prefix h hline
  · obtain ⟨t, ht⟩ := hp
    cases t using List.reverseRecOn with
    | nil =>
      rw [List.append_nil] at ht
      exact absurd (ht ▸ List.mem_append_right _ List.mem_cons_self) hliteral
    | append_singleton t c =>
      rw [← List.append_assoc] at ht
      exact ⟨t, (List.append_inj' ht rfl).1⟩
  · exact absurd (hp.subset (List.mem_append_right _ List.mem_cons_self)) hliteral

/-- The ID of a job is in its first line. -/
theorem nomadJobId_congr {job' applicationSlug : String} {r r' : List Char} (hl : '\n' ∉ l)
    (h : job.toList = l ++ '\n' :: r) (h' : job'.toList = l ++ '\n' :: r')
    (hguard : Helper.boundedText "Nomad job" job 262144 = .ok ())
    (hguard' : Helper.boundedText "Nomad job" job' 262144 = .ok ()) :
    Helper.nomadJobId job' applicationSlug = Helper.nomadJobId job applicationSlug := by
  rw [Helper.nomadJobId, Helper.nomadJobId, hguard, hguard', h, h']
  by_cases hopen : "job \"".toList <+: l
  · obtain ⟨x, rfl⟩ := hopen
    have hx : '\n' ∉ x := fun hm => hl (List.mem_append_right _ hm)
    have hunquoted : ∀ r, Helper.unquoted (x ++ '\n' :: r) = Helper.unquoted x := by
      intro r
      rw [Helper.unquoted, Helper.unquoted, List.takeWhile_append]
      split
      · rename_i hall
        rw [List.takeWhile_cons_of_neg (by decide), List.append_nil]
        exact ((List.takeWhile_prefix _).eq_of_length hall).symm
      · rfl
    have hlength : (Helper.unquoted x).length ≤ x.length := (List.takeWhile_prefix _).length_le
    have hclose : ∀ y r, '\n' ∉ y →
        (Helper.afterLiteral "\" \x7b\n" (y ++ '\n' :: r)).isSome = decide (y = "\" \x7b".toList) := by
      intro y r hy
      have hliteral : "\" \x7b\n".toList = "\" \x7b".toList ++ ['\n'] := by rfl
      rw [Bool.eq_iff_iff, decide_eq_true_eq, Option.isSome_iff_exists]
      constructor
      · rintro ⟨t, ht⟩
        have hwhole := Helper.afterLiteral_eq_some.mp ht
        rw [hliteral, List.append_assoc, List.singleton_append] at hwhole
        exact (append_cons_inj hy (by decide) hwhole).1
      · rintro rfl
        refine ⟨r, Helper.afterLiteral_eq_some.mpr ?_⟩
        rw [hliteral, List.append_assoc, List.singleton_append]
    have hdrop : '\n' ∉ x.drop (Helper.unquoted x).length := fun hm => hx (List.drop_subset _ _ hm)
    simp only [List.append_assoc, Helper.afterLiteral_append, hunquoted,
      List.drop_append_of_le_length hlength, hclose _ _ hdrop]
  · have hnone : ∀ r, Helper.afterLiteral "job \"" (l ++ '\n' :: r) = none := by
      intro r
      rw [Helper.afterLiteral, if_neg]
      rw [List.isPrefixOf_iff_prefix, prefix_firstLine (by decide)]
      exact hopen
    rw [hnone, hnone]

/-! ## The main result -/

/-- The readers find the same in two texts. -/
structure SameReadings (job result : String) : Prop where
  jobId : ∀ applicationSlug,
    Helper.nomadJobId result applicationSlug = Helper.nomadJobId job applicationSlug
  placement : Helper.nomadPlacementId result = Helper.nomadPlacementId job
  routeMarker : Helper.nomadRouteMarker result = Helper.nomadRouteMarker job
  routePriority : Helper.nomadRoutePriority result = Helper.nomadRoutePriority job

theorem hostsLine_toList (host : String) : (hostsLine host).toList =
    "        extra_hosts     = [".toList ++ (jsonText host ++ [']']) := String.toList_ofList

/-- The line of a storage host is one line, in which the readers find nothing. -/
theorem hostsLine_ordinary (host : String) :
    '\n' ∉ (hostsLine host).toList ∧ Ordinary (hostsLine host).toList := by
  have htext : (hostsLine host).toList =
      Line.text [lit "        extra_hosts     = [", .lit (jsonText host), lit "]"] := by
    rw [text_three, hostsLine_toList]
    rfl
  rw [htext]
  exact ⟨(extraHosts_reads host).oneLine, extraHosts_ordinary host⟩

theorem nul_notMem_hostsLine (host : String) : '\x00' ∉ (hostsLine host).toList := by
  rw [hostsLine_toList, List.mem_append, List.mem_append, not_or, not_or]
  refine ⟨by decide, fun hn => ?_, by decide⟩
  obtain ⟨c, hc, hn⟩ := List.mem_map.mp hn
  have hprint := JsonText.isPrintable_dumpString _ c hc
  have hvalue : (Char.ofNat c).toNat = c :=
    Text.ofNat_toNat_of_isScalar (Text.isScalar_of_lt (by omega))
  rw [hn] at hvalue
  have : c = 0 := hvalue.symm
  omega

/-- A text is mentioned in one that it is a part of. -/
theorem mentions_of_isInfix {piece text : String} (h : piece.toList <:+: text.toList) :
    Helper.mentions piece text = true := by
  obtain ⟨s, t, hst⟩ := h
  rw [Helper.mentions, List.any_eq_true]
  refine ⟨piece.toList ++ t, (List.mem_tails _ _).mpr ⟨s, ?_⟩, ?_⟩
  · rw [← hst, List.append_assoc]
  · exact List.isPrefixOf_iff_prefix.mpr (List.prefix_append _ _)

/-- Two texts with the same first line in which the readers find the same. -/
theorem sameReadings_of_search {result : String} {r r' : List Char} (hl : '\n' ∉ l)
    (h : job.toList = l ++ '\n' :: r) (h' : result.toList = l ++ '\n' :: r')
    (hguard : Helper.boundedText "Nomad job" job 262144 = .ok ())
    (hguard' : Helper.boundedText "Nomad job" result 262144 = .ok ())
    (hplacement : job.toList.tails.filterMap Helper.placementAt =
      result.toList.tails.filterMap Helper.placementAt)
    (hmarker : job.toList.tails.filterMap Helper.routeMarkerAt =
      result.toList.tails.filterMap Helper.routeMarkerAt)
    (hpriority : job.toList.tails.filterMap Helper.priorityAt =
      result.toList.tails.filterMap Helper.priorityAt) : SameReadings job result := by
  refine ⟨fun _ => nomadJobId_congr hl h h' hguard hguard', ?_, ?_, ?_⟩
  · rw [Helper.nomadPlacementId, Helper.nomadPlacementId, hguard, hguard', hplacement]
  · rw [Helper.nomadRouteMarker, Helper.nomadRouteMarker, hguard, hguard', hmarker]
  · rw [Helper.nomadRoutePriority, Helper.nomadRoutePriority, hguard, hguard', hpriority]

/-- The first line of a text that a block follows. -/
theorem exists_firstLine (a : List Char) : ∃ l : List Char, '\n' ∉ l ∧ ∀ x, ∃ r,
    a ++ ((Helper.metaLine ++ ['\n']) ++ x) = l ++ '\n' :: r := by
  by_cases h : '\n' ∈ a
  · obtain ⟨l, t, rfl, hl⟩ := List.eq_append_cons_of_mem h
    refine ⟨l, hl, fun x => ⟨t ++ ((Helper.metaLine ++ ['\n']) ++ x), ?_⟩⟩
    simp only [List.append_assoc, List.cons_append]
  · refine ⟨a ++ Helper.metaLine, ?_, fun x => ⟨x, ?_⟩⟩
    · rw [List.mem_append, not_or]
      exact ⟨h, by decide⟩
    · simp only [List.append_assoc, List.cons_append, List.nil_append]

/-- A job that `storage_hosts_job` can upgrade within the limit of the readers. -/
def Rewritable (line job : String) : Prop :=
  ∃ marker d, searchMarker [] job.toList = some marker ∧ Upgradable marker d ∧
    job.utf8ByteSize + line.utf8ByteSize + 1 ≤ 262144 + byteSize (joinLines d.hosts)

/-- The text of an upgraded job is within the limit of the readers. -/
theorem guard_of_rewritable {b' : List Char} {d : DockerConfig} {host : String}
    (hjob : job.toList = a ++ (b ++ d.text d.hosts))
    (hguard : Helper.boundedText "Nomad job" job 262144 = .ok ())
    (hblock : byteSize b' = byteSize b) (hnul : '\x00' ∉ b')
    (hsize : job.utf8ByteSize + (hostsLine host).utf8ByteSize + 1 ≤
      262144 + byteSize (joinLines d.hosts)) :
    Helper.boundedText "Nomad job"
      (String.ofList (a ++ (b' ++ d.text [(hostsLine host).toList]))) 262144 = .ok () := by
  have hold : ∀ s : String, s.utf8ByteSize = byteSize s.toList := by
    intro s
    rw [← utf8ByteSize_ofList, String.ofList_toList]
  have hend : ∀ l : List Char, byteSize ('\n' :: l) = 1 + byteSize l := by
    intro l
    rw [← List.singleton_append, byteSize_append]
    rfl
  have hnil : byteSize [] = 0 := rfl
  obtain ⟨hfree, -⟩ := boundedText_eq_ok.mp hguard
  rw [boundedText_eq_ok, String.toList_ofList, utf8ByteSize_ofList]
  rw [hold, hold, hjob] at hsize
  rw [hjob] at hfree
  constructor
  · simp only [DockerConfig.text, joinLines_cons, joinLines_nil, List.mem_append, List.mem_cons,
      not_or, List.not_mem_nil] at hfree ⊢
    obtain ⟨ha, -, hbefore, himage, hline, -, hafter⟩ := hfree
    exact ⟨ha, hnul, hbefore, himage, hline, ⟨nul_notMem_hostsLine host, hline, not_false⟩, hafter⟩
  · simp only [DockerConfig.text, joinLines_cons, joinLines_nil, byteSize_append,
      hend, hnil] at hsize ⊢
    omega

/-- A job is rewritten into one that is accepted and in which the readers find the same. -/
theorem rewriteHosts_upgrade (hsha : ∀ t, isSha256Hex (sha256 t) = true) {host : String}
    (haccepted : AcceptedText sha256 job hash image) (h : Rewritable (hostsLine host) job) :
    ∃ result hash', rewriteHosts sha256 (hostsLine host) job = .ok result ∧
      Helper.nomadCandidateIdentity sha256 result = .ok (hash', image) ∧ SameReadings job result ∧
      (hostsLine host).toList <:+: result.toList := by
  obtain ⟨marker, d, hsearch, hup, hsize⟩ := h
  obtain ⟨a, b, rest, hjob, hblock, hfound⟩ := @searchMarker_of_search hash image _ [] haccepted.search
  rw [hsearch] at hfound
  cases hfound
  obtain ⟨w, w', z, hw, hw', hhash, rfl, hother⟩ := hblock.parts
  obtain rfl : rest = d.text d.hosts := hup.after
  obtain ⟨hne, hquote, hline⟩ := hup.image
  have hhosts : ∀ l ∈ d.hosts, '\n' ∉ l ∧ Ordinary l := by
    intro l hl
    obtain ⟨⟨_, _, -, hend, -⟩, hordinary⟩ := hup.hosts l hl
    exact ⟨hend, hordinary⟩
  have hhosts' : ∀ l ∈ [(hostsLine host).toList], '\n' ∉ l ∧ Ordinary l := by
    intro l hl
    rw [List.mem_singleton.mp hl]
    exact hostsLine_ordinary host
  -- the text around the block, and its hash
  have hraw : ∀ hash : String, a ++ ((blockHead ++ hashField w w' hash z) ++
      d.text [(hostsLine host).toList]) = a ++ (blockHead ++ hashField w w' hash
        ((z ++ d.before) ++ (imageLine d.image ++
          '\n' :: (joinLines [(hostsLine host).toList] ++ d.after)))) := by
    intro hash
    rw [List.append_assoc blockHead, hashField_append, DockerConfig.text, List.append_assoc z]
  have hraw' : a ++ ((blockHead ++ hashField w w' hash z) ++ d.text d.hosts) =
      a ++ (blockHead ++ hashField w w' hash ((z ++ d.before) ++ (imageLine d.image ++
        '\n' :: (joinLines d.hosts ++ d.after)))) := by
    rw [List.append_assoc blockHead, hashField_append, DockerConfig.text, List.append_assoc z]
  obtain ⟨hash', hhash'⟩ : ∃ hash', hash' =
      sha256 (String.ofList (a ++ d.text [(hostsLine host).toList])) := ⟨_, rfl⟩
  have hvalid : isSha256Hex hash' = true := by
    rw [hhash']
    exact hsha _
  have hresult : rewriteHosts sha256 (hostsLine host) job = .ok (String.ofList (a ++
      ((blockHead ++ hashField w w' hash' z) ++ d.text [(hostsLine host).toList]))) := by
    rw [rewriteHosts_eq hsearch hup]
    simp only [List.reverse_nil, List.nil_append, ← hhash',
      replaceFirst_block hw hw' hhash]
  have hguard' : Helper.boundedText "Nomad job" (String.ofList (a ++
      ((blockHead ++ hashField w w' hash' z) ++ d.text [(hostsLine host).toList]))) 262144 =
        .ok () := by
    refine guard_of_rewritable hjob haccepted.guard ?_ ?_ hsize
    · have hsplit : ∀ h : String, blockHead ++ hashField w w' h z =
          (blockHead ++ (w ++ '=' :: (w' ++ ['"']))) ++ (h.toList ++ '"' :: '\n' :: z) := by
        intro h
        rw [hashField]
        simp only [List.append_assoc, List.cons_append, List.nil_append]
      rw [hsplit, hsplit]
      simp only [byteSize_append, byteSize_hash hhash, byteSize_hash hvalid]
    · obtain ⟨hfree, -⟩ := boundedText_eq_ok.mp haccepted.guard
      rw [hjob] at hfree
      simp only [hashField, List.mem_append, List.mem_cons, not_or] at hfree ⊢
      obtain ⟨-, ⟨hhead, hblank, hequal, hblank', hopen, -, hend⟩, -⟩ := hfree
      exact ⟨hhead, hblank, hequal, hblank', hopen, notMem_of_isSha256Hex (by decide) hvalid, hend⟩
  have hblocks := haccepted.search
  rw [hjob] at hblocks
  have hupgraded := search_upgraded hblock (hother hash' hvalid) hquote hline hhosts hhosts' hblocks
  refine ⟨_, hash', hresult, ?_, ?_, ?_⟩
  · have hblock' := hother hash' hvalid
    rw [hhash'] at hblock' hupgraded hguard' ⊢
    exact identity_of_search hguard' haccepted.pin hblock' hupgraded
  · obtain ⟨l, hl, hfirst⟩ := exists_firstLine a
    have hhead : ∀ (hash : String) (r : List Char), (blockHead ++ hashField w w' hash z) ++ r =
        (Helper.metaLine ++ ['\n']) ++ (hashKey ++ (hashField w w' hash z ++ r)) := by
      intro hash r
      rw [List.append_assoc, blockHead_eq, List.append_assoc]
    obtain ⟨r, hr⟩ := hfirst (hashKey ++ (hashField w w' hash z ++ d.text d.hosts))
    obtain ⟨r', hr'⟩ := hfirst (hashKey ++ (hashField w w' hash' z ++
      d.text [(hostsLine host).toList]))
    rw [← hhead] at hr hr'
    refine sameReadings_of_search hl (hjob.trans hr) (String.toList_ofList.trans hr') haccepted.guard
      hguard' ?_ ?_ ?_
    · rw [hjob, String.toList_ofList, hraw, hraw']
      exact placementAt_unhashed.search_rewritten hw hw' hhash hvalid hquote hline hhosts hhosts'
    · rw [hjob, String.toList_ofList, hraw, hraw']
      exact routeMarkerAt_unhashed.search_rewritten hw hw' hhash hvalid hquote hline hhosts hhosts'
    · rw [hjob, String.toList_ofList, hraw, hraw']
      exact priorityAt_unhashed.search_rewritten hw hw' hhash hvalid hquote hline hhosts hhosts'
  · rw [String.toList_ofList, hraw, joinLines_cons]
    refine ⟨a ++ (blockHead ++ hashField w w' hash' ((z ++ d.before) ++
      (imageLine d.image ++ ['\n']))), '\n' :: d.after, ?_⟩
    rw [hashField, hashField, joinLines_nil]
    simp only [List.append_assoc, List.cons_append, List.nil_append]

/-- An accepted job is left as it is when it has the line. -/
theorem storageHostsJob_of_accepted {platform : PlatformConfig}
     (h : Helper.nomadCandidateIdentity sha256 job = .ok id) : storageHostsJob sha256 platform job =
      if Helper.mentions
          (hostsLine (platform.storageName ++ ":" ++ platform.storageAddress)) job = true then
        .ok job
      else
        rewriteHosts sha256 (hostsLine (platform.storageName ++ ":" ++ platform.storageAddress))
          job := by
  rw [storageHostsJob, h]
  rfl

/-- **An upgraded job is the saved one with another storage host.**  A job that is accepted, and that
has the line of the host or can be given it, is upgraded to one that is accepted with the same image;
the readers find the same in both, and the upgraded job is left as it is. -/
theorem storageHostsJob_upgrade {sha256 : String → String}
    (hsha : ∀ t, isSha256Hex (sha256 t) = true) {platform : PlatformConfig}
    {job hash image : String}
    (haccepted : Helper.nomadCandidateIdentity sha256 job = .ok (hash, image))
    (h : Helper.mentions (hostsLine (platform.storageName ++ ":" ++ platform.storageAddress)) job =
        true ∨
      Rewritable (hostsLine (platform.storageName ++ ":" ++ platform.storageAddress)) job) :
    ∃ result hash', storageHostsJob sha256 platform job = .ok result ∧
      Helper.nomadCandidateIdentity sha256 result = .ok (hash', image) ∧ SameReadings job result ∧
      storageHostsJob sha256 platform result = .ok result := by
  obtain ⟨line, hline⟩ : ∃ line,
      line = hostsLine (platform.storageName ++ ":" ++ platform.storageAddress) := ⟨_, rfl⟩
  have hkept : ∀ {text id}, Helper.nomadCandidateIdentity sha256 text = .ok id →
      Helper.mentions line text = true → storageHostsJob sha256 platform text = .ok text := by
    intro text id htext hmentions
    rw [storageHostsJob_of_accepted htext, ← hline, if_pos hmentions]
  by_cases hmentions : Helper.mentions line job = true
  · have hsame := hkept haccepted hmentions
    exact ⟨job, hash, hsame, haccepted, ⟨fun _ => rfl, rfl, rfl, rfl⟩, hsame⟩
  · have hrewritable := h.resolve_left (hline ▸ hmentions)
    obtain ⟨result, hash', hresult, hidentity, hsame, hinfix⟩ :=
      rewriteHosts_upgrade hsha (acceptedText_of_identity haccepted) hrewritable
    refine ⟨result, hash', ?_, hidentity, hsame, ?_⟩
    · rw [storageHostsJob_of_accepted haccepted, ← hline, if_neg hmentions, hline]
      exact hresult
    · refine hkept hidentity (mentions_of_isInfix ?_)
      rw [hline]
      exact hinfix

/-! ## Two saved jobs -/

/-- A text in which one line starts a block has no other block. -/
theorem search_single (hb : IsBlock b id) (hsingle : ((a ++ (b ++ rest)).tails.filter fun t =>
      (Helper.metaLine ++ ['\n']).isPrefixOf t).length = 1) :
    (a ++ (b ++ rest)).tails.filterMap identityAt = [id] := by
  have hstart : ∀ t, (if (Helper.metaLine ++ ['\n']).isPrefixOf t then identityAt t else none) =
      identityAt t := by
    intro t
    split
    · rfl
    · rename_i hprefix
      symm
      by_contra hsome
      obtain ⟨x, hx⟩ := Option.ne_none_iff_exists'.mp hsome
      obtain ⟨m, r, hm, rfl⟩ := (identityAt_pattern _ _).mp hx
      obtain ⟨m', rfl, -⟩ := hm.tail
      refine hprefix (List.isPrefixOf_iff_prefix.mpr ⟨m' ++ r, ?_⟩)
      simp only [List.append_assoc, List.cons_append, List.nil_append]
  have hmem : id ∈ (a ++ (b ++ rest)).tails.filterMap identityAt :=
    List.mem_filterMap.mpr ⟨b ++ rest, (List.mem_tails _ _).mpr (List.suffix_append a _),
      (identityAt_pattern _ _).mpr ⟨b, rest, hb, rfl⟩⟩
  have hfilter := @List.filterMap_filter _ _
    (fun t : List Char => (Helper.metaLine ++ ['\n']).isPrefixOf t) identityAt
    (a ++ (b ++ rest)).tails
  simp only [hstart] at hfilter
  obtain ⟨s, hs⟩ := List.length_eq_one_iff.mp hsingle
  rw [hs, List.filterMap_cons, List.filterMap_nil] at hfilter
  rw [← hfilter] at hmem ⊢
  split at hmem
  · cases hmem
  · rw [List.mem_singleton.mp hmem]

theorem searchMarker_single (hb : IsBlock b (hash, image))
    (hsingle : ((a ++ (b ++ rest)).tails.filter fun t =>
      (Helper.metaLine ++ ['\n']).isPrefixOf t).length = 1) :
    searchMarker [] (a ++ (b ++ rest)) = some ⟨a, b, hash, rest⟩ := by
  have hsearch := search_single hb hsingle
  obtain ⟨a', b', rest', ht, hb', hmarker⟩ := @searchMarker_of_search hash image _ [] hsearch
  have hsuffix : b ++ rest = b' ++ rest' :=
    suffix_unique hsearch (List.suffix_append _ _) ⟨a', ht.symm⟩
      ((identityAt_pattern _ _).mpr ⟨b, rest, hb, rfl⟩)
      ((identityAt_pattern _ _).mpr ⟨b', rest', hb', rfl⟩)
  have hsame := (markerAt_eq_some.mpr ⟨b, hb, rfl⟩).symm.trans
    (markerAt_eq_some.mpr ⟨b', hb', hsuffix⟩)
  obtain rfl : rest = rest' := (Prod.mk.inj (Prod.mk.inj (Option.some.inj hsame)).2).2
  obtain rfl := List.append_cancel_right hsuffix
  obtain rfl := List.append_cancel_right ht
  exact hmarker

example : searchMarker [] ("  meta \x7b\n".toList) = none := by decide +kernel

/-! ## The two jobs -/

/-- The parts of the two jobs. -/
def sampleOpen : List Char := "job \"shop\" \x7b\n".toList

def sampleClose : List Char := ['\x7d', '\n']

def sampleConstraint : List Char :=
  joinLines ["    attribute = \"$\x7bmeta.application_id\x7d\"".toList,
    "    operator  = \"=\"".toList,
    "    value     = \"00000000-0000-4000-8000-000000000001\"".toList]

def samplePin : List Char := "apps/shop@sha256:".toList ++ List.replicate 64 '0'

def sampleHosts (digit : Char) : List Char :=
  "        extra_hosts     = [\"storage.internal:10.0.0.".toList ++ [digit, '"', ']']

/-- The marker block with a hash. -/
def sampleBlock (hash : String) : List Char :=
  joinLines ["  meta \x7b".toList,
    "    platform_candidate_job_sha256 = \"".toList ++ hash.toList ++ ['"'],
    "    platform_candidate_image = \"".toList ++ samplePin ++ ['"'],
    "    platform_source_commit = \"".toList ++ List.replicate 40 '0' ++ ['"'],
    "    platform_recipe_sha256 = \"".toList ++ List.replicate 64 '0' ++ ['"'],
    "  \x7d".toList, []]

/-- A job with its image before its marker block: what stands before the block. -/
def misplacedHead : List Char :=
  sampleOpen ++ (imageLine samplePin ++ '\n' :: sampleConstraint)

/-- What stands before the block after the lines of the hosts are edited. -/
def editedHead : List Char :=
  sampleOpen ++ (imageLine samplePin ++ '\n' :: (sampleHosts '5' ++ '\n' :: sampleConstraint))

/-- The Docker configuration of a job with its image after its marker block. -/
def savedConfig : DockerConfig where
  before := sampleConstraint
  image := samplePin
  hosts := [sampleHosts '4']
  after := sampleClose

def misplacedHash : String := "f76e93d15a1e244f4e04cbb7d5fca52d4a459cdb2fe7acea68503e250f73f545"

def editedHash : String := "4ddd77f0aff20f6cd6130b09d1b9d41eaff65b4153d0c5ebbddbb95465841941"

def savedHash : String := "32ff84c11d3db0139b5ac8846b680da4628b47ad85e2b9d79eb529f0cf0cf3cc"

def upgradedHash : String := "dd1a7800adaf15b6178f96277567c3aeccfe8b6bbb4f290db2e8d94a8879fed9"

/-- The hashes of the texts around the blocks of the two jobs, before and after the upgrade. -/
def sampleDigest (text : String) : String :=
  if text.toList = misplacedHead ++ sampleClose then misplacedHash
  else if text.toList = editedHead ++ sampleClose then editedHash
  else if text.toList = sampleOpen ++ savedConfig.text savedConfig.hosts then savedHash
  else if text.toList = sampleOpen ++ savedConfig.text [sampleHosts '5'] then upgradedHash
  else sampleHash text

theorem hashes_sample : (isSha256Hex misplacedHash = true ∧ isSha256Hex savedHash = true) ∧
    isSha256Hex editedHash = true ∧ isSha256Hex upgradedHash = true := by
  simp only [isSha256Hex, ← String.length_toList]
  delta misplacedHash savedHash editedHash upgradedHash
  simp (disch := rfl) only [toList_of_eq_ofList]
  decide +kernel

theorem isSha256Hex_sampleDigest (text : String) : isSha256Hex (sampleDigest text) = true := by
  obtain ⟨⟨hmisplaced, hsaved⟩, hedited, hupgraded⟩ := hashes_sample
  rw [sampleDigest]
  split_ifs
  · exact hmisplaced
  · exact hedited
  · exact hsaved
  · exact hupgraded
  · exact isSha256Hex_sampleHash text

theorem sampleBlock_accepted (h : isSha256Hex hash = true) :
    IsBlock (sampleBlock hash) (hash, String.ofList samplePin) ∧
      Helper.checkOciDigestPin "Nomad candidate image" (String.ofList samplePin) = .ok () := by
  have hmarked : Helper.isMarkedImage (String.ofList samplePin) = true := by
    rw [Helper.isMarkedImage, String.toList_ofList]
    decide +kernel
  have hcommit : isCommit (String.ofList (List.replicate 40 '0')) = true := by
    rw [isCommit, ← String.length_toList, String.toList_ofList]
    decide +kernel
  have hhex : isSha256Hex (String.ofList (List.replicate 64 '0')) = true := by
    rw [isSha256Hex, ← String.length_toList, String.toList_ofList]
    decide +kernel
  refine ⟨⟨_, _, [], _, _, _, _, ⟨[' '], [' '], by decide, by decide, quoted_of_hex h, h, rfl⟩,
    ⟨[' '], [' '], by decide, by decide, ?_, hmarked, rfl⟩, .inl rfl,
    ⟨[' '], [' '], by decide, by decide, ?_, hcommit, rfl⟩,
    ⟨[' '], [' '], by decide, by decide, quoted_of_hex hhex, hhex, rfl⟩, ?_⟩,
    by decide +kernel⟩
  · rw [String.toList_ofList]
    decide +kernel
  · rw [String.toList_ofList]
    decide +kernel
  · rw [String.toList_ofList, String.toList_ofList, String.toList_ofList]
    delta sampleBlock blockStart blockEnd
    simp (disch := rfl) only [String.toList_append, toList_of_eq_ofList, joinLines_cons,
      joinLines_nil, List.append_assoc, List.cons_append, List.nil_append]

/-- A job with its image before its marker block. -/
def misplacedJob : String :=
  String.ofList (misplacedHead ++ (sampleBlock misplacedHash ++ sampleClose))

theorem sampleDigest_misplaced :
    sampleDigest (String.ofList (misplacedHead ++ sampleClose)) = misplacedHash := by
  rw [sampleDigest, String.toList_ofList, if_pos rfl]

/-- The readings of the job, the line of the sample platform's host, and the hash of the edited
job. -/
theorem misplacedJob_marked : (Helper.nomadCandidateIdentity sampleDigest misplacedJob =
        .ok (misplacedHash, String.ofList samplePin) ∧
      searchMarker [] misplacedJob.toList =
        some ⟨misplacedHead, sampleBlock misplacedHash, misplacedHash, sampleClose⟩) ∧
    (hostsLine (samplePlatform.storageName ++ ":" ++ samplePlatform.storageAddress)).toList =
      sampleHosts '5' ∧
    sampleDigest (String.ofList (editedHead ++ sampleClose)) = editedHash := by
  obtain ⟨hblock, hpin⟩ := sampleBlock_accepted hashes_sample.1.1
  have hsingle : ((misplacedHead ++ (sampleBlock misplacedHash ++ sampleClose)).tails.filter fun t =>
      (Helper.metaLine ++ ['\n']).isPrefixOf t).length = 1 := by
    delta Helper.metaLine misplacedHead sampleOpen samplePin imageLine imageKey sampleConstraint
      sampleBlock misplacedHash sampleClose
    simp (disch := rfl) only [toList_of_eq_ofList]
    decide +kernel
  have hmarked : IsBlock (sampleBlock misplacedHash)
      (sampleDigest (String.ofList (misplacedHead ++ sampleClose)), String.ofList samplePin) := by
    rw [sampleDigest_misplaced]
    exact hblock
  refine ⟨⟨?_, ?_⟩, ?_, ?_⟩
  · rw [← sampleDigest_misplaced]
    refine identity_of_search ?_ hpin hmarked ?_
    · rw [boundedText_eq_ok, String.toList_ofList, utf8ByteSize_ofList]
      delta misplacedHead sampleOpen samplePin imageLine imageKey sampleConstraint sampleBlock
        misplacedHash
      simp (disch := rfl) only [toList_of_eq_ofList]
      decide +kernel
    · rw [sampleDigest_misplaced]
      exact search_single hblock hsingle
  · rw [misplacedJob, String.toList_ofList]
    exact searchMarker_single hblock hsingle
  · rw [hostsLine_toList]
    decide +kernel
  · rw [sampleDigest, String.toList_ofList, if_neg (by decide +kernel), if_pos rfl]

/-- The text of the job after the upgrade: the block stands within the placement. -/
def movedText : List Char :=
  editedHead.take misplacedHead.length ++
    (sampleBlock editedHash ++ (editedHead.drop misplacedHead.length ++ sampleClose))

theorem misplacedJob_rewritten : storageHostsJob sampleDigest samplePlatform misplacedJob =
    .ok (String.ofList movedText) := by
  have hmentions : Helper.mentions
      (hostsLine (samplePlatform.storageName ++ ":" ++ samplePlatform.storageAddress)) misplacedJob =
        false := by
    rw [Helper.mentions, misplacedJob_marked.2.1, misplacedJob, String.toList_ofList]
    delta misplacedHead sampleOpen samplePin imageLine imageKey sampleConstraint sampleBlock
      misplacedHash sampleHosts
    simp (disch := rfl) only [toList_of_eq_ofList]
    decide +kernel
  have hedited : subn imageAt (fun m => m ++ (sampleHosts '5' ++ ['\n'])) 0 none
      (subn hostsAt (fun _ => []) 0 none (misplacedHead ++ sampleClose)).1 =
        (editedHead ++ sampleClose, 1) := by
    delta editedHead misplacedHead sampleOpen samplePin imageLine imageKey sampleConstraint
      sampleHosts
    simp (disch := rfl) only [toList_of_eq_ofList]
    decide +kernel
  have hblock : replaceFirst misplacedHash.toList editedHash.toList (sampleBlock misplacedHash) =
      sampleBlock editedHash := by
    delta sampleBlock samplePin misplacedHash editedHash
    simp (disch := rfl) only [toList_of_eq_ofList]
    decide +kernel
  have hlength : misplacedHead.length ≤ editedHead.length := by
    decide +kernel
  rw [storageHostsJob_of_accepted misplacedJob_marked.1.1, hmentions, if_neg (by decide), rewriteHosts,
    misplacedJob_marked.1.2]
  simp only [misplacedJob_marked.2.1, hedited, misplacedJob_marked.2.2, hblock]
  rw [movedText, List.take_append_of_le_length hlength, List.drop_append_of_le_length hlength,
    List.append_assoc]
  rfl

/-- **The upgrade of a job with its image before its marker block loses the placement**: the block is
put into the middle of it. -/
theorem storageHostsJob_misplaced : ∃ sha256 : String → String,
    (∀ t, isSha256Hex (sha256 t) = true) ∧
    (∃ id, Helper.nomadCandidateIdentity sha256 misplacedJob = .ok id) ∧
    Helper.nomadPlacementId misplacedJob = .ok "00000000-0000-4000-8000-000000000001" ∧
    ∃ result, storageHostsJob sha256 samplePlatform misplacedJob = .ok result ∧
      ∀ placement, Helper.nomadPlacementId result ≠ .ok placement := by
  refine ⟨sampleDigest, isSha256Hex_sampleDigest, ⟨_, misplacedJob_marked.1.1⟩, ?_, _,
    misplacedJob_rewritten, fun placement h => ?_⟩
  · have hsearch : (misplacedHead ++ (sampleBlock misplacedHash ++ sampleClose)).tails.filterMap
        Helper.placementAt = ["00000000-0000-4000-8000-000000000001"] := by
      delta misplacedHead sampleOpen samplePin imageLine imageKey sampleConstraint sampleBlock
        misplacedHash sampleClose
      simp (disch := rfl) only [toList_of_eq_ofList]
      decide +kernel
    have hguard := (acceptedText_of_identity misplacedJob_marked.1.1).guard
    rw [Helper.nomadPlacementId, hguard, misplacedJob, String.toList_ofList, hsearch]
    rfl
  · have hsearch : movedText.tails.filterMap Helper.placementAt = [] := by
      delta movedText editedHead misplacedHead sampleOpen samplePin imageLine imageKey
        sampleConstraint sampleHosts sampleBlock editedHash sampleClose
      simp (disch := rfl) only [toList_of_eq_ofList]
      decide +kernel
    rw [Helper.nomadPlacementId, String.toList_ofList, hsearch] at h
    obtain ⟨_, -, h⟩ := Checks.bind_ok_iff.mp h
    cases h

example : (storageHostsJob sampleDigest samplePlatform "").isOk = false := by decide +kernel

/-- A saved job with another storage host. -/
def savedJob : String :=
  String.ofList (sampleOpen ++ (sampleBlock savedHash ++ savedConfig.text savedConfig.hosts))

theorem savedConfig_upgradable : Upgradable ⟨sampleOpen, sampleBlock savedHash, savedHash,
    savedConfig.text savedConfig.hosts⟩ savedConfig where
  after := rfl
  image := by decide +kernel
  hosts := by
    intro l hl
    rw [List.mem_singleton.mp hl]
    exact ⟨⟨"     ".toList, " [\"storage.internal:10.0.0.".toList ++ ['4', '"', ']'], by decide,
      by decide +kernel, by decide +kernel⟩, ordinary_of_check (by decide +kernel)⟩
  noHosts := by decide +kernel
  noHostsAfter := by decide +kernel
  noImage := by decide +kernel
  noImageAfter := by decide +kernel

/-- The saved job is upgraded. -/
theorem storageHostsJob_saved : ∃ result hash',
    storageHostsJob sampleDigest samplePlatform savedJob = .ok result ∧
      Helper.nomadCandidateIdentity sampleDigest result = .ok (hash', String.ofList samplePin) ∧
      SameReadings savedJob result ∧
      storageHostsJob sampleDigest samplePlatform result = .ok result := by
  have hdigest : sampleDigest (String.ofList (sampleOpen ++ savedConfig.text savedConfig.hosts)) =
      savedHash := by
    rw [sampleDigest, String.toList_ofList, if_neg (by decide +kernel), if_neg (by decide +kernel),
      if_pos rfl]
  obtain ⟨hblock, hpin⟩ := sampleBlock_accepted hashes_sample.1.2
  have hsingle : ((sampleOpen ++ (sampleBlock savedHash ++
      savedConfig.text savedConfig.hosts)).tails.filter fun t =>
        (Helper.metaLine ++ ['\n']).isPrefixOf t).length = 1 := by
    delta Helper.metaLine sampleOpen sampleBlock savedHash savedConfig DockerConfig.text samplePin
      sampleHosts sampleConstraint imageLine imageKey
    simp (disch := rfl) only [toList_of_eq_ofList]
    decide +kernel
  have hidentity : Helper.nomadCandidateIdentity sampleDigest savedJob =
      .ok (savedHash, String.ofList samplePin) := by
    have hmarked : IsBlock (sampleBlock savedHash) (sampleDigest (String.ofList (sampleOpen ++
        savedConfig.text savedConfig.hosts)), String.ofList samplePin) := by
      rw [hdigest]
      exact hblock
    rw [← hdigest]
    refine identity_of_search ?_ hpin hmarked ?_
    · rw [boundedText_eq_ok, String.toList_ofList, utf8ByteSize_ofList]
      delta sampleOpen sampleBlock savedHash savedConfig DockerConfig.text samplePin sampleHosts
        sampleConstraint imageLine imageKey
      simp (disch := rfl) only [toList_of_eq_ofList]
      decide +kernel
    · rw [hdigest]
      exact search_single hblock hsingle
  have hsearch : searchMarker [] savedJob.toList = some ⟨sampleOpen, sampleBlock savedHash, savedHash,
      savedConfig.text savedConfig.hosts⟩ := by
    rw [savedJob, String.toList_ofList]
    exact searchMarker_single hblock hsingle
  have hsize : savedJob.utf8ByteSize +
      (hostsLine (samplePlatform.storageName ++ ":" ++ samplePlatform.storageAddress)).utf8ByteSize + 1 ≤
        262144 + byteSize (joinLines savedConfig.hosts) := by
    rw [savedJob, utf8ByteSize_ofList, ← @String.ofList_toList (hostsLine _), misplacedJob_marked.2.1,
      utf8ByteSize_ofList]
    decide +kernel
  exact storageHostsJob_upgrade isSha256Hex_sampleDigest hidentity
    (.inr ⟨_, savedConfig, hsearch, savedConfig_upgradable, hsize⟩)

end Controller
end OpenstackPlatform
