import OpenstackPlatform.Controller.JobIdentity
import OpenstackPlatform.Library.Substitution

/-!
# Jobs with another storage host

`storage_hosts_job` of `nomad_jobs.py` puts the line of the configured storage host into the text of
a saved job, and the hash of what it has written into the marker block.  The block is taken out, the
text around it is changed, and a block is put in again at the position where the first one stood.

* `searchMarker`, `hostsAt`, `imageAt`, `replaceFirst`, `hostsLine`: the searches.
* `rewriteHosts`, `storageHostsJob`.
* `IsBlock`, `markerAt_eq_some`: what a marker block is, with `IsBlock.parts` for its hash.
-/

namespace OpenstackPlatform
namespace Controller

open Library Library.Hcl Validation

/-! ## The rewriting -/

/-- A match of `_JOB_MARKER_BLOCK`: the text before it, `marker[0]`, `marker[1]` and the text after
it. -/
structure MarkedText where
  before : List Char
  block : List Char
  hash : String
  after : List Char
  deriving DecidableEq, Repr

/-- `_JOB_MARKER_BLOCK.search`; `before` is what was passed, last character first. -/
def searchMarker (before : List Char) : List Char → Option MarkedText
  | [] => none
  | c :: text =>
    match Helper.markerAt (c :: text) with
    | some (hash, _, rest) =>
      some ⟨before.reverse, (c :: text).take ((c :: text).length - rest.length), hash, rest⟩
    | none => searchMarker (c :: before) text

/-- `^        extra_hosts\s*=.*\n` with `re.MULTILINE`: the length of the match. -/
def hostsAt (previous : Option Char) (text : List Char) : Option Nat :=
  if previous.all (· == '\n') then do
    let rest ← Helper.afterLiteral "        extra_hosts" text
    let value ← Helper.afterLiteral "=" (rest.dropWhile isSpace)
    let next ← Helper.afterLiteral "\n" (value.dropWhile fun c => c != '\n')
    return text.length - next.length
  else none

/-- `        image           = "[^"\n]+"\n`: the length of the match. -/
def imageAt (_previous : Option Char) (text : List Char) : Option Nat := do
  let rest ← Helper.afterLiteral "        image           = \"" text
  let value := Helper.unquoted rest
  if value.isEmpty then none
  else
    let next ← Helper.afterLiteral "\"\n" (rest.drop value.length)
    return text.length - next.length

/-- `str.replace(old, new, 1)`, for an old text that is not empty. -/
def replaceFirst (old new : List Char) : List Char → List Char
  | [] => []
  | c :: text =>
    if old.isPrefixOf (c :: text) then new ++ (c :: text).drop old.length
    else c :: replaceFirst old new text

/-- The line of a storage host. -/
def hostsLine (host : String) : String :=
  String.ofList ("        extra_hosts     = [".toList ++ (jsonText host ++ [']']))

/-- `storage_hosts_job` for a text that does not have the line yet. -/
def rewriteHosts (sha256 : String → String) (line : String) (job : String) :
    Except Helper.Error String :=
  match searchMarker [] job.toList with
  -- `assert marker is not None`: the job was accepted, so it has a block
  | none => .error (.helperAction "assert" "marker is not None")
  | some marker => do
    let raw := (subn hostsAt (fun _ => []) 0 none (marker.before ++ marker.after)).1
    let edited := subn imageAt (fun m => m ++ (line.toList ++ ['\n'])) 0 none raw
    Helper.require (edited.2 == 1)
      (.validation "saved application Docker configuration is ambiguous")
    let metadata :=
      replaceFirst marker.hash.toList (sha256 (String.ofList edited.1)).toList marker.block
    -- the position is that of the block in the text before it was changed
    let start := marker.before.length
    return String.ofList (edited.1.take start ++ metadata ++ edited.1.drop start)

/-- `storage_hosts_job` -/
def storageHostsJob (sha256 : String → String) (platform : PlatformConfig) (job : String) :
    Except Helper.Error String := do
  let _ ← Helper.nomadCandidateIdentity sha256 job
  let line := hostsLine (platform.storageName ++ ":" ++ platform.storageAddress)
  if Helper.mentions line job then return job else rewriteHosts sha256 line job

/-! ## Settings -/

/-- One line of the marker block, with its line end: a key and a quoted value. -/
def IsSetting (key : String) (valid : String → Bool) (v : String) (s : List Char) : Prop :=
  ∃ w w' : List Char, (∀ c ∈ w, isSpace c = true) ∧ (∀ c ∈ w', isSpace c = true) ∧
    ('"' ∉ v.toList ∧ '\n' ∉ v.toList) ∧ valid v = true ∧
    s = ("    " ++ key).toList ++ (w ++ '=' :: (w' ++ '"' :: (v.toList ++ ['"', '\n'])))

theorem IsSetting.valid {key : String} {valid : String → Bool} {v : String} {s : List Char}
    (h : IsSetting key valid v s) : valid v = true := by
  obtain ⟨_, _, -, -, -, hvalid, -⟩ := h
  exact hvalid

/-- Blanks before another character are passed. -/
theorem dropWhile_isSpace {w t : List Char} {c : Char} (hw : ∀ d ∈ w, isSpace d = true)
    (hc : isSpace c = false) : (w ++ c :: t).dropWhile isSpace = c :: t := by
  rw [List.dropWhile_append_of_pos hw, List.dropWhile_cons_of_neg (by simp [hc])]

theorem mem_takeWhile_isSpace {t : List Char} : ∀ c ∈ t.takeWhile isSpace, isSpace c = true :=
  fun c hc => List.all_eq_true.mp List.all_takeWhile c hc

theorem settingAt_eq_some {key : String} {valid : String → Bool} {t rest : List Char} {v : String} :
    Helper.settingAt key valid t = some (v, rest) ↔ ∃ s, IsSetting key valid v s ∧ t = s ++ rest := by
  constructor
  · intro h
    simp only [Helper.settingAt, Option.bind_eq_bind, Option.bind_eq_some_iff] at h
    obtain ⟨r₁, h₁, r₂, h₂, r₃, h₃, h⟩ := h
    split at h
    · rename_i hvalid
      obtain ⟨r₄, h₄, h⟩ := Option.bind_eq_some_iff.mp h
      obtain ⟨hv, rfl⟩ := Prod.mk.inj (Option.some.inj h)
      rw [hv] at hvalid
      have hr₁ : r₁ = r₁.takeWhile isSpace ++ '=' :: r₂ := by
        have := Helper.afterLiteral_eq_some.mp h₂
        conv_lhs => rw [← List.takeWhile_append_dropWhile (p := isSpace) (l := r₁), this]
        rfl
      have hr₂ : r₂ = r₂.takeWhile isSpace ++ '"' :: r₃ := by
        have := Helper.afterLiteral_eq_some.mp h₃
        conv_lhs => rw [← List.takeWhile_append_dropWhile (p := isSpace) (l := r₂), this]
        rfl
      have hr₃ : r₃ = v.toList ++ '"' :: '\n' :: r₄ := by
        have hwhole : Helper.unquoted r₃ ++ r₃.drop (Helper.unquoted r₃).length = r₃ :=
          List.prefix_iff_eq_append.mp (List.takeWhile_prefix _)
        rw [Helper.afterLiteral_eq_some.mp h₄] at hwhole
        rw [← hv, String.toList_ofList]
        exact hwhole.symm
      refine ⟨_, ⟨r₁.takeWhile isSpace, r₂.takeWhile isSpace, mem_takeWhile_isSpace,
        mem_takeWhile_isSpace, ?_, hvalid, rfl⟩, ?_⟩
      · rw [← hv, String.toList_ofList]
        have hall : ∀ c ∈ Helper.unquoted r₃, (c != '"' && c != '\n') = true := fun c hc =>
          List.all_eq_true.mp List.all_takeWhile c hc
        exact ⟨fun hq => absurd (hall _ hq) (by decide), fun hq => absurd (hall _ hq) (by decide)⟩
      · rw [Helper.afterLiteral_eq_some.mp h₁]
        simp only [List.append_assoc, List.cons_append, List.nil_append]
        rw [← hr₃, ← hr₂, ← hr₁]
    · cases h
  · rintro ⟨s, ⟨w, w', hw, hw', ⟨hquote, hline⟩, hvalid, rfl⟩, rfl⟩
    have hunquoted : Helper.unquoted (v.toList ++ '"' :: '\n' :: rest) = v.toList := by
      refine Helper.takeWhile_append_cons (fun c hc => ?_) (by decide)
      rw [Bool.and_eq_true, bne_iff_ne, bne_iff_ne]
      exact ⟨fun he => hquote (he ▸ hc), fun he => hline (he ▸ hc)⟩
    have hequal : Helper.afterLiteral "=" ('=' :: (w' ++ '"' :: (v.toList ++ '"' :: '\n' :: rest))) =
        some (w' ++ '"' :: (v.toList ++ '"' :: '\n' :: rest)) := Helper.afterLiteral_append "=" _
    have hopen : Helper.afterLiteral "\"" ('"' :: (v.toList ++ '"' :: '\n' :: rest)) =
        some (v.toList ++ '"' :: '\n' :: rest) := Helper.afterLiteral_append "\"" _
    have hclose : Helper.afterLiteral "\"\n" ('"' :: '\n' :: rest) = some rest :=
      Helper.afterLiteral_append "\"\n" rest
    have hblank := fun t => dropWhile_isSpace (t := t) hw (by decide : isSpace '=' = false)
    have hblank' := fun t => dropWhile_isSpace (t := t) hw' (by decide : isSpace '"' = false)
    simp only [List.append_assoc, List.cons_append, List.nil_append]
    rw [Helper.settingAt, Helper.afterLiteral_append]
    simp only [Option.bind_eq_bind, Option.bind_some, hblank, hequal, hblank', hopen, hunquoted,
      String.ofList_toList, hvalid, if_true, List.drop_left, hclose]
    rfl

/-! ## Blocks -/

/-- The value of the route marker in a block. -/
def isRouteField (v : String) : Bool := v.length == 36 && v.toList.all Helper.isIdChar

/-- The first line of a block. -/
def blockStart : List Char := "  meta \x7b\n".toList

/-- The last lines of a block. -/
def blockEnd : List Char := "  \x7d\n\n".toList

/-- A text that `_JOB_MARKER_BLOCK` matches, with its hash and its image. -/
def IsBlock (b : List Char) (id : String × String) : Prop :=
  ∃ s₁ s₂ s₃ s₄ s₅ : List Char, ∃ c r : String,
    IsSetting "platform_candidate_job_sha256" isSha256Hex id.1 s₁ ∧
    IsSetting "platform_candidate_image" Helper.isMarkedImage id.2 s₂ ∧
    (s₃ = [] ∨ ∃ m, IsSetting "platform_route_marker" isRouteField m s₃) ∧
    IsSetting "platform_source_commit" isCommit c s₄ ∧
    IsSetting "platform_recipe_sha256" isSha256Hex r s₅ ∧
    b = blockStart ++ (s₁ ++ (s₂ ++ (s₃ ++ (s₄ ++ (s₅ ++ blockEnd)))))

/-- What follows an optional route marker. -/
theorem afterRouteMarker_eq {t : List Char} : ∃ s, t = s ++ Helper.afterRouteMarker t ∧
    (s = [] ∨ ∃ m, IsSetting "platform_route_marker" isRouteField m s) := by
  rw [Helper.afterRouteMarker]
  cases h : Helper.settingAt "platform_route_marker"
      (fun v => v.length == 36 && v.toList.all Helper.isIdChar) t with
  | none => exact ⟨[], rfl, .inl rfl⟩
  | some x =>
    obtain ⟨s, hs, ht⟩ := settingAt_eq_some.mp h
    exact ⟨s, ht, .inr ⟨x.1, hs⟩⟩

theorem afterRouteMarker_setting {m : String} {s rest : List Char}
    (h : IsSetting "platform_route_marker" isRouteField m s) :
    Helper.afterRouteMarker (s ++ rest) = rest := by
  have hsetting : Helper.settingAt "platform_route_marker"
      (fun v => v.length == 36 && v.toList.all Helper.isIdChar) (s ++ rest) = some (m, rest) :=
    settingAt_eq_some.mpr ⟨s, h, rfl⟩
  rw [Helper.afterRouteMarker, hsetting]
  rfl

/-- The line of the commit is not one of a route marker. -/
theorem afterRouteMarker_commit {c : String} {s rest : List Char}
    (h : IsSetting "platform_source_commit" isCommit c s) :
    Helper.afterRouteMarker (s ++ rest) = s ++ rest := by
  have hnone : Helper.settingAt "platform_route_marker"
      (fun v => v.length == 36 && v.toList.all Helper.isIdChar) (s ++ rest) = none := by
    by_contra hsome
    obtain ⟨x, hx⟩ := Option.ne_none_iff_exists'.mp hsome
    obtain ⟨s', ⟨u, u', -, -, -, -, rfl⟩, heq⟩ := settingAt_eq_some.mp hx
    obtain ⟨w, w', -, -, -, -, rfl⟩ := h
    have hcommit : ∀ y, (("    " ++ "platform_source_commit").toList ++ y).take 14 =
        "    platform_s".toList := fun y => by
      rw [List.take_append_of_le_length (by decide)]
      rfl
    have hroute : ∀ y, (("    " ++ "platform_route_marker").toList ++ y).take 14 =
        "    platform_r".toList := fun y => by
      rw [List.take_append_of_le_length (by decide)]
      rfl
    have htake := congrArg (List.take 14) heq
    rw [List.append_assoc, hcommit, List.append_assoc, hroute] at htake
    exact absurd htake (by decide)
  rw [Helper.afterRouteMarker, hnone]
  rfl

theorem markerAt_eq_some {t rest : List Char} {hash image : String} :
    Helper.markerAt t = some (hash, image, rest) ↔ ∃ b, IsBlock b (hash, image) ∧ t = b ++ rest := by
  constructor
  · intro h
    simp only [Helper.markerAt, Option.bind_eq_bind, Option.bind_eq_some_iff, Prod.exists] at h
    obtain ⟨r₀, h₀, _, r₁, h₁, _, r₂, h₂, c, r₄, h₄, r, r₅, h₅, r₆, h₆, h⟩ := h
    obtain ⟨rfl, hrest⟩ := Prod.mk.inj (Option.some.inj h)
    obtain ⟨rfl, rfl⟩ := Prod.mk.inj hrest
    obtain ⟨s₁, hs₁, rfl⟩ := settingAt_eq_some.mp h₁
    obtain ⟨s₂, hs₂, rfl⟩ := settingAt_eq_some.mp h₂
    obtain ⟨s₃, ht, hs₃⟩ := afterRouteMarker_eq (t := r₂)
    obtain ⟨s₄, hs₄, h₄⟩ := settingAt_eq_some.mp h₄
    obtain ⟨s₅, hs₅, rfl⟩ := settingAt_eq_some.mp h₅
    refine ⟨_, ⟨s₁, s₂, s₃, s₄, s₅, c, r, hs₁, hs₂, hs₃, hs₄, hs₅, rfl⟩, ?_⟩
    have hopen : t = blockStart ++ (s₁ ++ (s₂ ++ r₂)) := Helper.afterLiteral_eq_some.mp h₀
    have hclose : r₅ = blockEnd ++ r₆ := Helper.afterLiteral_eq_some.mp h₆
    rw [hopen, ht, h₄, hclose]
    simp only [List.append_assoc]
  · rintro ⟨b, ⟨s₁, s₂, s₃, s₄, s₅, c, r, hs₁, hs₂, hs₃, hs₄, hs₅, rfl⟩, rfl⟩
    have hroute : Helper.afterRouteMarker (s₃ ++ (s₄ ++ (s₅ ++ (blockEnd ++ rest)))) =
        s₄ ++ (s₅ ++ (blockEnd ++ rest)) := by
      obtain rfl | ⟨m, hm⟩ := hs₃
      · rw [List.nil_append]
        exact afterRouteMarker_commit hs₄
      · exact afterRouteMarker_setting hm
    have hopen : ∀ r, Helper.afterLiteral "  meta \x7b\n" (blockStart ++ r) = some r :=
      Helper.afterLiteral_append _
    have hclose : ∀ r, Helper.afterLiteral "  \x7d\n\n" (blockEnd ++ r) = some r :=
      Helper.afterLiteral_append _
    simp only [List.append_assoc]
    rw [Helper.markerAt, hopen]
    simp only [Option.bind_eq_bind, Option.bind_some, settingAt_eq_some.mpr ⟨s₁, hs₁, rfl⟩,
      settingAt_eq_some.mpr ⟨s₂, hs₂, rfl⟩, hroute, settingAt_eq_some.mpr ⟨s₄, hs₄, rfl⟩,
      settingAt_eq_some.mpr ⟨s₅, hs₅, rfl⟩, hclose]
    rfl

/-- The hash and the image of a block at the start of a text. -/
def identityAt (t : List Char) : Option (String × String) :=
  (Helper.markerAt t).map fun x => (x.1, x.2.1)

theorem identityAt_pattern : IsPattern identityAt IsBlock := by
  rintro t ⟨hash, image⟩
  rw [identityAt, Option.map_eq_some_iff]
  constructor
  · rintro ⟨⟨_, _, rest⟩, h, hid⟩
    obtain ⟨rfl, rfl⟩ := Prod.mk.inj hid
    obtain ⟨b, hb, ht⟩ := markerAt_eq_some.mp h
    exact ⟨b, rest, hb, ht⟩
  · rintro ⟨b, rest, hb, ht⟩
    exact ⟨(hash, image, rest), markerAt_eq_some.mpr ⟨b, hb, ht⟩, rfl⟩

/-- The text of a block up to its hash's key. -/
def blockHead : List Char := "  meta \x7b\n    platform_candidate_job_sha256".toList

/-- The line of a block's hash, after its key. -/
def hashField (w w' : List Char) (hash : String) (rest : List Char) : List Char :=
  w ++ '=' :: (w' ++ '"' :: (hash.toList ++ '"' :: '\n' :: rest))

/-- A hash stands alone in its line. -/
theorem quoted_of_hex {hash : String} (h : isSha256Hex hash = true) :
    '"' ∉ hash.toList ∧ '\n' ∉ hash.toList := by
  rw [isSha256Hex, Bool.and_eq_true, List.all_eq_true] at h
  exact ⟨fun hm => absurd (h.2 _ hm) (by decide), fun hm => absurd (h.2 _ hm) (by decide)⟩

/-- The hash of a block can be another one. -/
theorem IsBlock.parts {b : List Char} {hash image : String} (h : IsBlock b (hash, image)) :
    ∃ w w' z : List Char, (∀ c ∈ w, isSpace c = true) ∧ (∀ c ∈ w', isSpace c = true) ∧
      isSha256Hex hash = true ∧ b = blockHead ++ hashField w w' hash z ∧
      ∀ hash', isSha256Hex hash' = true →
        IsBlock (blockHead ++ hashField w w' hash' z) (hash', image) := by
  obtain ⟨s₁, s₂, s₃, s₄, s₅, c, r, ⟨w, w', hw, hw', -, hvalid, rfl⟩, hs₂, hs₃, hs₄, hs₅, rfl⟩ := h
  have hhead : blockHead = blockStart ++ ("    " ++ "platform_candidate_job_sha256").toList := by
    rfl
  refine ⟨w, w', s₂ ++ (s₃ ++ (s₄ ++ (s₅ ++ blockEnd))), hw, hw', hvalid, ?_,
    fun hash' hash => ⟨_, s₂, s₃, s₄, s₅, c, r, ⟨w, w', hw, hw', quoted_of_hex hash, hash, rfl⟩, hs₂,
      hs₃, hs₄, hs₅, ?_⟩⟩
  · rw [hhead, hashField]
    simp only [List.append_assoc, List.cons_append, List.nil_append]
  · rw [hhead, hashField]
    simp only [List.append_assoc, List.cons_append, List.nil_append]

end Controller
end OpenstackPlatform
