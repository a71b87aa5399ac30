import OpenstackPlatform.Validation
import OpenstackPlatform.Library.Ranking
import OpenstackPlatform.Library.Table
import OpenstackPlatform.RuntimeVersions.Ranges

/-!
# The image of a runtime

`helper/runtime_images.py`: a request for a runtime is resolved to a release and its image.

The releases come from Node's index or from the tags of Bun's repository, in whatever order these
list them.  Those that match the request are tried in turn until one has an image, but only the
first few of them.

What should be chosen is told without the table, the two sorts and the loop of the source.  A release
is listed with the mark of its last mention, and matches when it is supported and lies in the range
of the request; it is considered when fewer than three matching ones precede it; and the answers of
the registry say of a release that it is published, that it is not, or neither.

* `Answers`: what the index and the registry answer.
* `found`, `releases`, `indexDigest`, `resolveRuntime`.
* `Listed`, `Asks`, `Matching`, `Precedes`, `Considered`, `Image`: what is to be chosen.
* `found_eq_some_iff`, `mem_considered_iff`, `publish_eq_some_iff`: the loops do what is told.
* `resolveRuntime_selects`: when a resolution succeeds, and with what, and when it fails.
-/

namespace OpenstackPlatform
namespace Helper
namespace RuntimeImages

open Library RuntimeVersions

/-! ## Lookups -/

/-- An item of Node's release index, with what it has as texts. -/
structure IndexItem where
  version : Option String
  lts : Option String
  deriving DecidableEq, Repr

/-- A page of tags, and the path of the next one. -/
structure TagPage where
  tags : List (Option String)
  next : Option String
  deriving DecidableEq, Repr

/-- The answer about a manifest. -/
structure Manifest where
  status : ℕ
  digest : String
  contentType : String
  deriving DecidableEq, Repr

/-- What the lookups of a resolution are answered.  There is no answer when the time is up, when the
registry gives no token, and when an answer cannot be read. -/
structure Answers where
  index : Option (List IndexItem)
  tagPage : String → Option TagPage
  manifest : String → Option Manifest

/-- `IMAGE_REPOSITORIES` -/
def imageRepository : Runtime → String
  | .node => "docker.io/library/node"
  | .bun => "docker.io/oven/bun"

/-- `_Lookup.path` -/
def path : Runtime → String
  | .node => "library/node"
  | .bun => "oven/bun"

/-- `INDEX_MEDIA_TYPES` -/
def indexMediaTypes : List String :=
  ["application/vnd.oci.image.index.v1+json",
    "application/vnd.docker.distribution.manifest.list.v2+json"]

/-- `MAXIMUM_TAG_PAGES` -/
def maximumTagPages : ℕ := 20

/-- `MAXIMUM_IMAGE_ATTEMPTS` -/
def maximumImageAttempts : ℕ := 3

/-! ## Releases -/

/-- The version of a name in Node's index. -/
def nodeVersion (name : String) : Option Version :=
  if name.toList.head? = some 'v' then parseVersion (name.toList.drop 1) else none

/-- The version of a tag of Bun's repository. -/
def bunVersion (tag : String) : Option Version :=
  if "-slim".toList.isSuffixOf tag.toList then
    parseVersion (tag.toList.take (tag.toList.length - "-slim".toList.length))
  else none

/-- Each item of the index whose name is a version; a later item replaces an earlier one. -/
def findNode (index : List IndexItem) : Table Version Bool :=
  index.foldl (fun found item =>
    match item.version.bind nodeVersion with
    | some version => found.insert version item.lts.isSome
    | none => found) ∅

def findTags (tags : List (Option String)) (found : Table Version Bool) : Table Version Bool :=
  tags.foldl (fun found tag =>
    match tag.bind bunVersion with
    | some version => found.insert version false
    | none => found) found

/-- The releases of the tag pages from one on. -/
def findBun (answers : Answers) : ℕ → String → Table Version Bool → Option (Table Version Bool)
  | 0, _, _ => none
  | n + 1, page, found => do
    let answer ← answers.tagPage page
    match answer.next with
    | none => some (findTags answer.tags found)
    | some next =>
      if ("/v2/" ++ path .bun ++ "/tags/list?").toList.isPrefixOf next.toList then
        findBun answers n next (findTags answer.tags found)
      else none

/-- The published releases, each with whether it is LTS. -/
def found (runtime : Runtime) (answers : Answers) : Option (Table Version Bool) :=
  match runtime with
  | .node => answers.index.map findNode
  | .bun => findBun answers maximumTagPages ("/v2/" ++ path .bun ++ "/tags/list?n=1000") ∅

/-- `found.items()` -/
def items (found : Table Version Bool) : List (Version × Bool) :=
  found.entries.map fun entry => (entry.1, entry.2)

/-- Newest first. -/
def newest (a b : Version × Bool) : Bool := decide (b.1.key ≤ a.1.key)

/-- `_Lookup.releases` -/
def releases (runtime : Runtime) (answers : Answers) : Option (List (Version × Bool)) :=
  (found runtime answers).map fun found => (items found).mergeSort newest

/-- The numbers of a version with dots between them. -/
def versionText (version : Version) : String :=
  toString version.major ++ "." ++ toString version.minor ++ "." ++ toString version.patch

/-- A media type without its parameters. -/
def mediaType (contentType : String) : String :=
  String.ofList (Validation.strip (contentType.toList.takeWhile (· ≠ ';')))

/-- `_DIGEST`: `sha256:[0-9a-f]{64}` -/
def isDigest (digest : String) : Bool :=
  digest.toList.take 7 == "sha256:".toList &&
    Validation.isSha256Hex (String.ofList (digest.toList.drop 7))

/-- `_Lookup.index_digest`: the digest of a release's index, if it is published. -/
def indexDigest (runtime : Runtime) (answers : Answers) (version : Version) :
    Option (Option String) :=
  match answers.manifest ("/v2/" ++ path runtime ++ "/manifests/" ++ versionText version ++
    "-slim") with
  | none => none
  | some answer =>
    if answer.status = 404 then some none
    else if answer.status ≠ 200 ∨ !isDigest answer.digest then none
    else if mediaType answer.contentType ∉ indexMediaTypes then none
    else some (some answer.digest)

/-! ## The resolution -/

structure ResolvedRuntime where
  runtime : Runtime
  version : Option String
  image : String
  source : String
  deriving DecidableEq, Repr

/-- The exceptions of a resolution. -/
inductive ResolveError where
  | request (error : RequestError)
  | lookup (message : String)
  deriving DecidableEq, Repr

/-- `RuntimeLookupError` -/
def lookupError (runtime : Runtime) : ResolveError :=
  .lookup ("Couldn't look up " ++ runtime.name ++ " versions. " ++
    "Try deploying again in a few minutes.")

/-- `unmatched` -/
def unmatched (request : RuntimeRequest) : ResolveError :=
  .request (.version ("No " ++ request.runtime.name ++ " release matches " ++ request.field ++
    quoted request.value ++ "."))

/-- `version[:2] >= oldest` -/
def isSupported (runtime : Runtime) (version : Version) : Bool :=
  decide (runtime.oldestLine.1 < version.major ∨
    runtime.oldestLine.1 = version.major ∧ runtime.oldestLine.2 ≤ version.minor)

/-- A request without a range asks for an LTS release. -/
def isAdmitted (request : RuntimeRequest) (release : Version × Bool) : Bool :=
  match request.versions with
  | none => release.2
  | some range => range.admits release.1

/-- The releases that match a request. -/
def isMatch (request : RuntimeRequest) (release : Version × Bool) : Bool :=
  isSupported request.runtime release.1 && isAdmitted request release

/-- The key of the second sort puts LTS releases first. -/
def ltsFirst (a b : Version × Bool) : Bool := a.2 || !b.2

/-- `candidates` after both sorts -/
def candidates (request : RuntimeRequest) (releases : List (Version × Bool)) :
    List (Version × Bool) :=
  (releases.filter (isMatch request)).mergeSort ltsFirst

/-- The first release that is published, as far as the registry answers. -/
def publish (runtime : Runtime) (answers : Answers) :
    List (Version × Bool) → Option (Option (Version × String))
  | [] => some none
  | release :: rest =>
    match indexDigest runtime answers release.1 with
    | none => none
    | some none => publish runtime answers rest
    | some (some digest) => some (some (release.1, digest))

/-- `resolve_runtime` -/
def resolveRuntime (runtime : Runtime) (request : Option RuntimeRequest) (defaultImage : String)
    (answers : Answers) : Except ResolveError ResolvedRuntime :=
  match request with
  | none => .ok ⟨runtime, none, defaultImage, "default"⟩
  | some request =>
    if request.runtime ≠ runtime then
      .error (.request (.validation "runtime version request is malformed"))
    else
      match releases runtime answers with
      | none => .error (lookupError runtime)
      | some releases =>
        if (candidates request releases).isEmpty then .error (unmatched request)
        else
          match publish runtime answers
            ((candidates request releases).take maximumImageAttempts) with
          | some (some (version, digest)) =>
            .ok ⟨runtime, some (versionText version), imageRepository runtime ++ "@" ++ digest,
              request.field ++ " " ++ request.value⟩
          | _ => .error (lookupError runtime)

/-! ## What is to be chosen -/

/-- A release that an item of the index mentions. -/
def nodeRelease (item : IndexItem) : Option (Version × Bool) :=
  (item.version.bind nodeVersion).map fun version => (version, item.lts.isSome)

/-- A release that a tag mentions; Bun has no LTS releases. -/
def bunRelease (tag : Option String) : Option (Version × Bool) :=
  (tag.bind bunVersion).map fun version => (version, false)

/-- The tags of a page and of those after it, of which there are not more than a number. -/
inductive Tags (answers : Answers) : ℕ → String → List (Option String) → Prop where
  | last {n : ℕ} {page : String} {tags : List (Option String)}
      (h : answers.tagPage page = some ⟨tags, none⟩) : Tags answers (n + 1) page tags
  | more {n : ℕ} {page next : String} {tags rest : List (Option String)}
      (h : answers.tagPage page = some ⟨tags, some next⟩)
      (hpath : "/v2/oven/bun/tags/list?".toList <+: next.toList) (hrest : Tags answers n next rest) :
      Tags answers (n + 1) page (tags ++ rest)

/-- The releases that are mentioned, in whatever order. -/
inductive Lists (answers : Answers) : Runtime → List (Version × Bool) → Prop where
  | node {index : List IndexItem} (h : answers.index = some index) :
      Lists answers .node (index.filterMap nodeRelease)
  | bun {tags : List (Option String)}
      (h : Tags answers maximumTagPages "/v2/oven/bun/tags/list?n=1000" tags) :
      Lists answers .bun (tags.filterMap bunRelease)

/-- A release with the mark of its last mention. -/
def Listed (listed : List (Version × Bool)) (release : Version × Bool) : Prop :=
  ∃ before after, listed = before ++ release :: after ∧ ∀ other ∈ after, other.1 ≠ release.1

/-- A release is not below the oldest line of the runtime. -/
def IsSupported (runtime : Runtime) (version : Version) : Prop :=
  runtime.oldestLine.1 < version.major ∨
    runtime.oldestLine.1 = version.major ∧ runtime.oldestLine.2 ≤ version.minor

/-- A request without a range asks for LTS releases, and one with a range for those between the
bounds of an alternative. -/
def Asks (request : RuntimeRequest) (release : Version × Bool) : Prop :=
  match request.versions with
  | none => release.2 = true
  | some range => ∃ interval ∈ range.alternatives,
    (∀ low ∈ interval.low,
      low.key < release.1.key ∨ low.inclusive = true ∧ release.1.key = low.key) ∧
    ∀ high ∈ interval.high,
      release.1.key < high.key ∨ high.inclusive = true ∧ release.1.key = high.key

/-- A release that is listed, supported and asked for. -/
structure Matching (listed : List (Version × Bool)) (request : RuntimeRequest)
    (release : Version × Bool) : Prop where
  mentioned : Listed listed release
  supported : IsSupported request.runtime release.1
  asked : Asks request release

/-- The order in which releases are tried: LTS before others, then newest first. -/
def Precedes (a b : Version × Bool) : Prop :=
  a.2 = true ∧ b.2 = false ∨ a.2 = b.2 ∧ b.1.key < a.1.key

instance : DecidableRel Precedes := fun a b =>
  inferInstanceAs (Decidable (a.2 = true ∧ b.2 = false ∨ a.2 = b.2 ∧ b.1.key < a.1.key))

/-- A matching release that few others precede. -/
structure Considered (listed : List (Version × Bool)) (request : RuntimeRequest)
    (release : Version × Bool) : Prop extends Matching listed request release where
  few : {other | Matching listed request other ∧ Precedes other release}.encard < 3

/-- What the registry answers about the image of a release: the digest of its index, or that there is
none.  Any other answer, and none at all, leave it open. -/
inductive Image (answers : Answers) (runtime : Runtime) (version : Version) :
    Option String → Prop where
  | published {digest contentType : String}
      (h : answers.manifest ("/v2/" ++ path runtime ++ "/manifests/" ++ versionText version ++
        "-slim") = some ⟨200, digest, contentType⟩)
      (hdigest : isDigest digest = true) (htype : mediaType contentType ∈ indexMediaTypes) :
      Image answers runtime version (some digest)
  | absent {digest contentType : String}
      (h : answers.manifest ("/v2/" ++ path runtime ++ "/manifests/" ++ versionText version ++
        "-slim") = some ⟨404, digest, contentType⟩) :
      Image answers runtime version none

/-- The first of the considered releases that is published: those before it are not. -/
structure Chosen (answers : Answers) (listed : List (Version × Bool)) (request : RuntimeRequest)
    (release : Version × Bool) (digest : String) : Prop where
  considered : Considered listed request release
  published : Image answers request.runtime release.1 (some digest)
  first : ∀ other, Considered listed request other → Precedes other release →
    Image answers request.runtime other.1 none

/-- A considered release whose image is left open, before any that is published. -/
structure Unanswered (answers : Answers) (listed : List (Version × Bool)) (request : RuntimeRequest)
    (release : Version × Bool) : Prop where
  considered : Considered listed request release
  unanswered : ∀ image, ¬ Image answers request.runtime release.1 image
  first : ∀ other, Considered listed request other → Precedes other release →
    Image answers request.runtime other.1 none

/-- Why a resolution may fail, and with which error.  A lookup that stays open is no reason once an
earlier release is published. -/
inductive FailsWith (answers : Answers) (runtime : Runtime) (request : RuntimeRequest) :
    ResolveError → Prop where
  | malformed (h : request.runtime ≠ runtime) :
      FailsWith answers runtime request
        (.request (.validation "runtime version request is malformed"))
  | unlisted (h : request.runtime = runtime) (hnone : ∀ listed, ¬ Lists answers runtime listed) :
      FailsWith answers runtime request (lookupError runtime)
  | unmatched {listed : List (Version × Bool)} (h : request.runtime = runtime)
      (hlists : Lists answers runtime listed)
      (hnone : ∀ release, ¬ Matching listed request release) :
      FailsWith answers runtime request (unmatched request)
  | unanswered {listed : List (Version × Bool)} {release : Version × Bool}
      (h : request.runtime = runtime) (hlists : Lists answers runtime listed)
      (hopen : Unanswered answers listed request release) :
      FailsWith answers runtime request (lookupError runtime)
  | unpublished {listed : List (Version × Bool)} {release : Version × Bool}
      (h : request.runtime = runtime) (hlists : Lists answers runtime listed)
      (hmatching : Matching listed request release)
      (hnone : ∀ other, Considered listed request other →
        Image answers request.runtime other.1 none) :
      FailsWith answers runtime request (lookupError runtime)

/-! ## What is listed -/

/-- The table of some releases; a later mention replaces an earlier one. -/
def tableOf (listed : List (Version × Bool)) (found : Table Version Bool) : Table Version Bool :=
  listed.foldl (fun found release => found.insert release.1 release.2) found

theorem listed_cons {release first : Version × Bool} {rest : List (Version × Bool)} :
    Listed (first :: rest) release ↔
      Listed rest release ∨ first = release ∧ ∀ other ∈ rest, other.1 ≠ release.1 := by
  constructor
  · rintro ⟨before, after, heq, hafter⟩
    cases before with
    | nil =>
      obtain ⟨rfl, rfl⟩ := List.cons.inj heq
      exact .inr ⟨rfl, hafter⟩
    | cons other before =>
      obtain ⟨rfl, rfl⟩ := List.cons.inj heq
      exact .inl ⟨before, after, rfl, hafter⟩
  · rintro (⟨before, after, rfl, hafter⟩ | ⟨rfl, hrest⟩)
    · exact ⟨first :: before, after, rfl, hafter⟩
    · exact ⟨[], rest, rfl, hrest⟩

theorem Listed.mem {listed : List (Version × Bool)} {release : Version × Bool}
    (h : Listed listed release) : release ∈ listed := by
  obtain ⟨before, after, rfl, -⟩ := h
  exact List.mem_append_right _ List.mem_cons_self

theorem lookup_tableOf {listed : List (Version × Bool)} {found : Table Version Bool}
    {release : Version × Bool} :
    (tableOf listed found).lookup release.1 = some release.2 ↔ Listed listed release ∨
      found.lookup release.1 = some release.2 ∧ ∀ other ∈ listed, other.1 ≠ release.1 := by
  induction listed generalizing found with
  | nil =>
    constructor
    · exact fun h => .inr ⟨h, fun other hother => absurd hother List.not_mem_nil⟩
    · rintro (h | h)
      · cases h.mem
      · exact h.1
  | cons first rest ih =>
    rw [tableOf, List.foldl_cons]
    show (tableOf rest (found.insert first.1 first.2)).lookup release.1 = _ ↔ _
    rw [ih, Table.lookup_insert_ite, listed_cons, List.forall_mem_cons, or_assoc]
    refine or_congr_right ?_
    by_cases hversion : release.1 = first.1
    · rw [if_pos hversion, Option.some.injEq]
      constructor
      · rintro ⟨hmark, hrest⟩
        exact .inl ⟨Prod.ext hversion.symm hmark, hrest⟩
      · rintro (⟨rfl, hrest⟩ | ⟨-, hne, -⟩)
        · exact ⟨rfl, hrest⟩
        · exact absurd hversion.symm hne
    · rw [if_neg hversion]
      constructor
      · rintro ⟨hfound, hrest⟩
        exact .inr ⟨hfound, Ne.symm hversion, hrest⟩
      · rintro (⟨rfl, -⟩ | ⟨hfound, -, hrest⟩)
        · exact absurd rfl hversion
        · exact ⟨hfound, hrest⟩

/-- The tags of the pages are read in their order. -/
theorem findBun_eq_some_iff {answers : Answers} {n : ℕ} {page : String}
    {found table : Table Version Bool} :
    findBun answers n page found = some table ↔
      ∃ tags, Tags answers n page tags ∧ table = findTags tags found := by
  induction n generalizing page found with
  | zero =>
    constructor
    · intro h
      cases h
    · rintro ⟨tags, h, -⟩
      cases h
  | succ n ih =>
    rw [findBun]
    constructor
    · intro h
      obtain ⟨⟨tags, next⟩, hpage, h⟩ := Option.bind_eq_some_iff.mp h
      cases next with
      | none => exact ⟨tags, .last hpage, (Option.some.inj h).symm⟩
      | some next =>
        dsimp only at h
        split at h
        · rename_i hpath
          obtain ⟨rest, hrest, rfl⟩ := ih.mp h
          refine ⟨tags ++ rest, .more hpage (List.isPrefixOf_iff_prefix.mp hpath) hrest, ?_⟩
          rw [findTags, findTags, findTags, List.foldl_append]
        · cases h
    · rintro ⟨tags, h, rfl⟩
      cases h with
      | last hpage => exact Option.bind_eq_some_iff.mpr ⟨_, hpage, rfl⟩
      | @more _ _ next tags rest hpage hpath hrest =>
        refine Option.bind_eq_some_iff.mpr ⟨_, hpage, ?_⟩
        refine (if_pos (List.isPrefixOf_iff_prefix.mpr hpath)).trans (ih.mpr ⟨rest, hrest, ?_⟩)
        rw [findTags, findTags, findTags, List.foldl_append]

/-- Reading items one after the other is making a table of those that are releases. -/
theorem foldl_read {ι : Type} {read : ι → Option (Version × Bool)}
    {step : Table Version Bool → ι → Table Version Bool}
    (h : ∀ found item, step found item =
      (read item).elim found fun release => found.insert release.1 release.2)
    (items : List ι) (found : Table Version Bool) :
    items.foldl step found = tableOf (items.filterMap read) found := by
  induction items generalizing found with
  | nil => rfl
  | cons item items ih =>
    rw [List.foldl_cons, ih, h, List.filterMap_cons]
    cases read item <;> rfl

theorem findNode_eq (index : List IndexItem) :
    findNode index = tableOf (index.filterMap nodeRelease) ∅ := by
  refine foldl_read (fun found item => ?_) index ∅
  rw [nodeRelease]
  cases item.version.bind nodeVersion <;> rfl

theorem findTags_eq (tags : List (Option String)) (found : Table Version Bool) :
    findTags tags found = tableOf (tags.filterMap bunRelease) found := by
  refine foldl_read (fun found tag => ?_) tags found
  rw [bunRelease]
  cases tag.bind bunVersion <;> rfl

/-- What is found is the table of what is listed. -/
theorem found_eq_some_iff {runtime : Runtime} {answers : Answers} {table : Table Version Bool} :
    found runtime answers = some table ↔
      ∃ listed, Lists answers runtime listed ∧ table = tableOf listed ∅ := by
  cases runtime with
  | node =>
    rw [found, Option.map_eq_some_iff]
    constructor
    · rintro ⟨index, hindex, rfl⟩
      exact ⟨_, .node hindex, findNode_eq index⟩
    · rintro ⟨_, ⟨hindex⟩, rfl⟩
      exact ⟨_, hindex, findNode_eq _⟩
  | bun =>
    rw [found]
    constructor
    · intro h
      obtain ⟨tags, htags, rfl⟩ := findBun_eq_some_iff.mp h
      exact ⟨_, .bun htags, findTags_eq tags ∅⟩
    · rintro ⟨_, hlists, rfl⟩
      cases hlists with
      | bun htags => exact findBun_eq_some_iff.mpr ⟨_, htags, (findTags_eq _ ∅).symm⟩

/-! ## What matches -/

theorem isSupported_iff {runtime : Runtime} {version : Version} :
    isSupported runtime version = true ↔ IsSupported runtime version := decide_eq_true_iff

theorem isAdmitted_iff {request : RuntimeRequest} {release : Version × Bool} :
    isAdmitted request release = true ↔ Asks request release := by
  rw [isAdmitted, Asks]
  cases request.versions with
  | none => exact Iff.rfl
  | some range =>
    show range.admits release.1 = true ↔ _
    rw [VersionRange.admits_iff]
    refine exists_congr fun interval => and_congr_right fun _ => ?_
    rw [Span.admits_iff, Option.all_eq_true, Option.all_eq_true]
    refine and_congr (forall₂_congr fun low _ => ?_) (forall₂_congr fun high _ => ?_)
    · exact Bound.isBelow_iff
    · exact Bound.isAbove_iff

/-! ## The order of the candidates -/

theorem precedes_irrefl (a : Version × Bool) : ¬ Precedes a a := by
  rintro (⟨ht, hf⟩ | ⟨-, hlt⟩)
  · rw [ht] at hf
    cases hf
  · exact lt_irrefl _ hlt

theorem precedes_asymm (a b : Version × Bool) (h : Precedes a b) : ¬ Precedes b a := by
  rintro (⟨ht, hf⟩ | ⟨heq, hlt⟩)
  · obtain ⟨ha, hb⟩ | ⟨heq, -⟩ := h
    · rw [ha] at hf
      cases hf
    · rw [heq, ht] at hf
      cases hf
  · obtain ⟨ha, hb⟩ | ⟨-, hlt'⟩ := h
    · rw [hb, ha] at heq
      cases heq
    · exact lt_asymm hlt hlt'

theorem mem_items {found : Table Version Bool} {release : Version × Bool} :
    release ∈ items found ↔ found.lookup release.1 = some release.2 := by
  rw [items, List.mem_map, Table.lookup_eq_some_iff]
  constructor
  · rintro ⟨entry, hentry, rfl⟩
    exact hentry
  · intro hentry
    exact ⟨_, hentry, rfl⟩

/-- Keys tell versions apart. -/
theorem key_injective {a b : Version} (h : a.key = b.key) : a = b := by
  rw [Key.ext_iff'] at h
  exact Version.ext h.1 h.2.1 h.2.2.1

theorem pairwise_items (found : Table Version Bool) :
    (items found).Pairwise fun a b => a.1.key ≠ b.1.key := by
  rw [items, List.pairwise_map]
  refine (List.pairwise_map.mp found.nodupKeys).imp fun hne heq => ?_
  exact hne (key_injective heq)

/-- The releases are sorted strictly: a table has each version once. -/
theorem pairwise_releases (found : Table Version Bool) :
    ((items found).mergeSort newest).Pairwise fun a b => b.1.key < a.1.key := by
  have hsorted : ((items found).mergeSort newest).Pairwise fun a b => newest a b = true := by
    refine List.pairwise_mergeSort ?_ ?_ _
    · intro a b c hab hbc
      exact decide_eq_true ((of_decide_eq_true hbc).trans (of_decide_eq_true hab))
    · intro a b
      rw [Bool.or_eq_true, newest, newest, decide_eq_true_eq, decide_eq_true_eq]
      exact le_total b.1.key a.1.key
  have hne := (List.mergeSort_perm (items found) newest).symm.pairwise (pairwise_items found)
    fun hab heq => hab heq.symm
  refine (hsorted.and hne).imp fun h => ?_
  exact lt_of_le_of_ne (of_decide_eq_true h.1) h.2.symm

theorem pairwise_candidates (request : RuntimeRequest) (found : Table Version Bool) :
    (candidates request ((items found).mergeSort newest)).Pairwise Precedes := by
  have hfilter := (pairwise_releases found).filter (isMatch request)
  have hsorted := @pairwise_mergeSort_of_pairwise _ ltsFirst ?_ ?_ _ _ hfilter
  · refine hsorted.imp ?_
    rintro ⟨v, lts⟩ ⟨w, lts'⟩ ⟨hle, hge⟩
    cases lts with
    | true =>
      cases lts' with
      | true => exact .inr ⟨rfl, hge rfl⟩
      | false => exact .inl ⟨rfl, rfl⟩
    | false =>
      cases lts' with
      | true => cases hle
      | false => exact .inr ⟨rfl, hge rfl⟩
  · intro a b c hab hbc
    rw [ltsFirst, Bool.or_eq_true, Bool.not_eq_true'] at hab hbc ⊢
    obtain ha | hb := hab
    · exact .inl ha
    · obtain hb' | hc := hbc
      · rw [hb] at hb'
        cases hb'
      · exact .inr hc
  · rintro ⟨_, a⟩ ⟨_, b⟩
    cases a <;> cases b <;> rfl

/-- The releases that match, in whatever order. -/
def matching (request : RuntimeRequest) (listed : List (Version × Bool)) : List (Version × Bool) :=
  (items (tableOf listed ∅)).filter (isMatch request)

/-- The candidates of a resolution. -/
def sorted (request : RuntimeRequest) (listed : List (Version × Bool)) : List (Version × Bool) :=
  candidates request ((items (tableOf listed ∅)).mergeSort newest)

section Order

variable {request : RuntimeRequest} {listed : List (Version × Bool)} {release : Version × Bool}

theorem perm_sorted (request : RuntimeRequest) (listed : List (Version × Bool)) :
    (sorted request listed).Perm (matching request listed) :=
  (List.mergeSort_perm _ _).trans ((List.mergeSort_perm _ _).filter _)

theorem mem_matching_iff : release ∈ matching request listed ↔ Matching listed request release := by
  rw [matching, List.mem_filter, mem_items, lookup_tableOf, isMatch, Bool.and_eq_true,
    isSupported_iff, isAdmitted_iff]
  constructor
  · rintro ⟨hlisted | ⟨hnone, -⟩, hsupported, hasked⟩
    · exact ⟨hlisted, hsupported, hasked⟩
    · cases hnone
  · rintro ⟨hlisted, hsupported, hasked⟩
    exact ⟨.inl hlisted, hsupported, hasked⟩

theorem mem_sorted_iff : release ∈ sorted request listed ↔ Matching listed request release :=
  (perm_sorted request listed).mem_iff.trans mem_matching_iff

theorem nodup_sorted (request : RuntimeRequest) (listed : List (Version × Bool)) :
    (sorted request listed).Nodup := by
  refine List.Pairwise.imp (fun {a b} (hprecedes : Precedes a b) => ?_)
    (pairwise_candidates request _)
  rintro rfl
  exact precedes_irrefl a hprecedes

/-- The releases that are tried, without a sort. -/
theorem mem_considered_iff :
    release ∈ (sorted request listed).take maximumImageAttempts ↔
      Considered listed request release := by
  have hcount : {other | Matching listed request other ∧ Precedes other release}.encard =
      (sorted request listed).countP fun other => Precedes other release := by
    rw [← encard_setOf_mem (nodup_sorted request listed)]
    refine congrArg Set.encard (Set.ext fun other => ?_)
    exact and_congr mem_sorted_iff.symm decide_eq_true_iff.symm
  constructor
  · intro htake
    have hmem := List.mem_of_mem_take htake
    refine ⟨mem_sorted_iff.mp hmem, ?_⟩
    rw [hcount]
    exact_mod_cast (mem_take_iff precedes_irrefl precedes_asymm
      (pairwise_candidates request _) hmem _).mp htake
  · rintro ⟨hmatching, hfew⟩
    rw [hcount] at hfew
    exact (mem_take_iff precedes_irrefl precedes_asymm (pairwise_candidates request _)
      (mem_sorted_iff.mpr hmatching) _).mpr (by exact_mod_cast hfew)

end Order

/-! ## The first published release -/

section Publish

variable {runtime : Runtime} {answers : Answers} {version : Version}

theorem indexDigest_eq_some_iff {image : Option String} :
    indexDigest runtime answers version = some image ↔ Image answers runtime version image := by
  constructor
  · intro h
    rw [indexDigest] at h
    split at h
    · cases h
    · rename_i answer hmanifest
      obtain ⟨status, digest, contentType⟩ := answer
      dsimp only at h
      split at h
      · rename_i hstatus
        cases h
        subst hstatus
        exact .absent hmanifest
      · split at h
        · cases h
        · rename_i hvalid
          split at h
          · cases h
          · rename_i htype
            obtain ⟨hstatus, hdigest⟩ := not_or.mp hvalid
            cases h
            obtain rfl := not_not.mp hstatus
            rw [Bool.not_eq_true, Bool.not_eq_false'] at hdigest
            exact .published hmanifest hdigest (not_not.mp htype)
  · intro h
    rw [indexDigest]
    cases h with
    | published hmanifest hdigest htype =>
      rw [hmanifest]
      dsimp only
      rw [if_neg (by decide), if_neg, if_neg (not_not.mpr htype)]
      rw [hdigest]
      exact not_or.mpr ⟨not_not.mpr rfl, Bool.false_ne_true⟩
    | absent hmanifest =>
      rw [hmanifest]
      exact if_pos rfl

theorem indexDigest_eq_none_iff :
    indexDigest runtime answers version = none ↔ ∀ image, ¬ Image answers runtime version image := by
  rw [Option.eq_none_iff_forall_ne_some]
  exact forall_congr' fun image => not_congr indexDigest_eq_some_iff

variable {l : List (Version × Bool)}

theorem publish_eq_some_iff (h : l.Pairwise Precedes) {digest : String} :
    publish runtime answers l = some (some (version, digest)) ↔
      ∃ release ∈ l, (release.1 = version ∧ Image answers runtime release.1 (some digest)) ∧
        ∀ other ∈ l, Precedes other release → Image answers runtime other.1 none := by
  induction l with
  | nil =>
    refine iff_of_false (fun heq => ?_) fun ⟨release, hrelease, _⟩ => ?_
    · cases heq
    · exact List.not_mem_nil hrelease
  | cons first rest ih =>
    rw [exists_first_cons precedes_irrefl precedes_asymm h, ← ih h.of_cons, publish]
    cases hfirst : indexDigest runtime answers first.1 with
    | none =>
      have hopen := indexDigest_eq_none_iff.mp hfirst
      refine iff_of_false (fun heq => ?_) ?_
      · cases heq
      · rintro (⟨-, himage⟩ | ⟨himage, -⟩)
        · exact hopen _ himage
        · exact hopen _ himage
    | some image =>
      have himage := indexDigest_eq_some_iff.mp hfirst
      cases image with
      | none =>
        have hnone : ¬ (first.1 = version ∧ Image answers runtime first.1 (some digest)) := by
          rintro ⟨-, hother⟩
          rw [← indexDigest_eq_some_iff, hfirst] at hother
          cases hother
        rw [or_iff_right hnone, and_iff_right himage]
      | some digest' =>
        have hsome : ¬ Image answers runtime first.1 none := by
          intro hother
          rw [← indexDigest_eq_some_iff, hfirst] at hother
          cases hother
        rw [or_iff_left fun hrest => hsome hrest.1, ← indexDigest_eq_some_iff, hfirst]
        simp only [Option.some.injEq, Prod.mk.injEq]

theorem publish_eq_none_iff (h : l.Pairwise Precedes) :
    publish runtime answers l = none ↔
      ∃ release ∈ l, (∀ image, ¬ Image answers runtime release.1 image) ∧
        ∀ other ∈ l, Precedes other release → Image answers runtime other.1 none := by
  induction l with
  | nil =>
    refine iff_of_false (fun heq => ?_) fun ⟨release, hrelease, _⟩ => ?_
    · cases heq
    · exact List.not_mem_nil hrelease
  | cons first rest ih =>
    rw [exists_first_cons precedes_irrefl precedes_asymm h, ← ih h.of_cons, publish]
    cases hfirst : indexDigest runtime answers first.1 with
    | none => exact iff_of_true rfl (.inl (indexDigest_eq_none_iff.mp hfirst))
    | some image =>
      have himage := indexDigest_eq_some_iff.mp hfirst
      rw [or_iff_right fun hopen => hopen _ himage]
      cases image with
      | none => rw [and_iff_right himage]
      | some digest =>
        refine iff_of_false (fun heq => ?_) fun hrest => ?_
        · cases heq
        · have hother := indexDigest_eq_some_iff.mpr hrest.1
          rw [hfirst] at hother
          cases hother

theorem publish_eq_some_none_iff :
    publish runtime answers l = some none ↔
      ∀ release ∈ l, Image answers runtime release.1 none := by
  induction l with
  | nil => exact iff_of_true rfl fun release hrelease => absurd hrelease List.not_mem_nil
  | cons first rest ih =>
    rw [List.forall_mem_cons, ← ih, ← indexDigest_eq_some_iff, publish]
    cases indexDigest runtime answers first.1 with
    | none => exact iff_of_false (fun heq => by cases heq) fun hboth => by cases hboth.1
    | some image =>
      cases image with
      | none => exact (and_iff_right rfl).symm
      | some digest => exact iff_of_false (fun heq => by cases heq) fun hboth => by cases hboth.1

end Publish

/-! ## What is resolved -/

section Resolved

variable {runtime : Runtime} {request : RuntimeRequest} {answers : Answers}
  {listed : List (Version × Bool)}

/-- The releases that are tried are sorted. -/
theorem pairwise_tried (request : RuntimeRequest) (listed : List (Version × Bool)) :
    ((sorted request listed).take maximumImageAttempts).Pairwise Precedes :=
  (pairwise_candidates request _).take

theorem publish_eq_chosen_iff {version : Version} {digest : String} :
    publish request.runtime answers ((sorted request listed).take maximumImageAttempts) =
        some (some (version, digest)) ↔
      ∃ release, release.1 = version ∧ Chosen answers listed request release digest := by
  rw [publish_eq_some_iff (pairwise_tried request listed)]
  refine exists_congr fun release => ?_
  simp only [mem_considered_iff]
  constructor
  · rintro ⟨hconsidered, ⟨hversion, hpublished⟩, hfirst⟩
    exact ⟨hversion, hconsidered, hpublished, hfirst⟩
  · rintro ⟨hversion, hconsidered, hpublished, hfirst⟩
    exact ⟨hconsidered, ⟨hversion, hpublished⟩, hfirst⟩

theorem publish_eq_unanswered_iff :
    publish request.runtime answers ((sorted request listed).take maximumImageAttempts) = none ↔
      ∃ release, Unanswered answers listed request release := by
  rw [publish_eq_none_iff (pairwise_tried request listed)]
  refine exists_congr fun release => ?_
  simp only [mem_considered_iff]
  constructor
  · rintro ⟨hconsidered, hopen, hfirst⟩
    exact ⟨hconsidered, hopen, hfirst⟩
  · rintro ⟨hconsidered, hopen, hfirst⟩
    exact ⟨hconsidered, hopen, hfirst⟩

theorem publish_eq_absent_iff :
    publish request.runtime answers ((sorted request listed).take maximumImageAttempts) =
        some none ↔
      ∀ release, Considered listed request release →
        Image answers request.runtime release.1 none := by
  rw [publish_eq_some_none_iff]
  exact forall_congr' fun release => imp_congr_left mem_considered_iff

theorem sorted_isEmpty_iff :
    (sorted request listed).isEmpty = true ↔ ∀ release, ¬ Matching listed request release := by
  rw [List.isEmpty_iff, List.eq_nil_iff_forall_not_mem]
  exact forall_congr' fun release => not_congr mem_sorted_iff

theorem resolveRuntime_of_unmatched (hlists : Lists answers request.runtime listed)
    (defaultImage : String) (h : ∀ release, ¬ Matching listed request release) :
    resolveRuntime request.runtime (some request) defaultImage answers =
      .error (unmatched request) := by
  rw [resolveRuntime, if_neg (not_not.mpr rfl), releases,
    found_eq_some_iff.mpr ⟨listed, hlists, rfl⟩]
  exact if_pos (sorted_isEmpty_iff.mpr h)

theorem resolveRuntime_of_chosen (hlists : Lists answers request.runtime listed)
    (defaultImage : String) {release : Version × Bool} {digest : String}
    (h : Chosen answers listed request release digest) :
    resolveRuntime request.runtime (some request) defaultImage answers =
      .ok ⟨request.runtime, some (versionText release.1),
        imageRepository request.runtime ++ "@" ++ digest,
        request.field ++ " " ++ request.value⟩ := by
  have hpublish := publish_eq_chosen_iff.mpr ⟨release, rfl, h⟩
  have hmatching : ¬ (sorted request listed).isEmpty = true := fun hempty =>
    sorted_isEmpty_iff.mp hempty release h.considered.toMatching
  rw [resolveRuntime, if_neg (not_not.mpr rfl), releases,
    found_eq_some_iff.mpr ⟨listed, hlists, rfl⟩]
  refine (if_neg hmatching).trans ?_
  rw [sorted] at hpublish
  rw [hpublish]

/-- Without an image among the releases that are tried there is a lookup error. -/
theorem resolveRuntime_of_unpublished (hlists : Lists answers request.runtime listed)
    (defaultImage : String) {release : Version × Bool}
    (hmatching : Matching listed request release)
    (hpublish : ∀ published, publish request.runtime answers
      ((sorted request listed).take maximumImageAttempts) ≠ some (some published)) :
    resolveRuntime request.runtime (some request) defaultImage answers =
      .error (lookupError request.runtime) := by
  have hmatching : ¬ (sorted request listed).isEmpty = true := fun hempty =>
    sorted_isEmpty_iff.mp hempty release hmatching
  rw [resolveRuntime, if_neg (not_not.mpr rfl), releases,
    found_eq_some_iff.mpr ⟨listed, hlists, rfl⟩]
  refine (if_neg hmatching).trans ?_
  split
  · rename_i version digest heq
    exact absurd heq (hpublish (version, digest))
  · rfl

/-- One of the releases that are tried is published first, or one is left open first, or none is
published. -/
theorem chosen_or (answers : Answers) (request : RuntimeRequest)
    (listed : List (Version × Bool)) :
    (∃ release digest, Chosen answers listed request release digest) ∨
      (∃ release, Unanswered answers listed request release) ∨
        ∀ release, Considered listed request release →
          Image answers request.runtime release.1 none := by
  rw [← publish_eq_unanswered_iff, ← publish_eq_absent_iff]
  cases hpublish : publish request.runtime answers
      ((sorted request listed).take maximumImageAttempts) with
  | none => exact .inr (.inl rfl)
  | some published =>
    cases published with
    | none => exact .inr (.inr rfl)
    | some published =>
      obtain ⟨version, digest⟩ := published
      obtain ⟨release, -, hchosen⟩ := publish_eq_chosen_iff.mp hpublish
      exact .inl ⟨release, digest, hchosen⟩

/-- Where nothing is listed there is a lookup error. -/
theorem resolveRuntime_of_unlisted (hnone : ∀ listed, ¬ Lists answers request.runtime listed)
    (defaultImage : String) :
    resolveRuntime request.runtime (some request) defaultImage answers =
      .error (lookupError request.runtime) := by
  have hfound : found request.runtime answers = none :=
    Option.eq_none_iff_forall_ne_some.mpr fun table htable => by
      obtain ⟨listed, hlists, -⟩ := found_eq_some_iff.mp htable
      exact hnone listed hlists
  rw [resolveRuntime, if_neg (not_not.mpr rfl), releases, hfound]
  rfl

/-- The reasons to fail are the ones of the resolution. -/
theorem resolveRuntime_of_fails {error : ResolveError} (h : FailsWith answers runtime request error)
    (defaultImage : String) :
    resolveRuntime runtime (some request) defaultImage answers = .error error := by
  cases h with
  | malformed hne =>
    rw [resolveRuntime]
    exact if_pos hne
  | unlisted heq hnone =>
    subst heq
    exact resolveRuntime_of_unlisted hnone defaultImage
  | unmatched heq hlists hnone =>
    subst heq
    exact resolveRuntime_of_unmatched hlists defaultImage hnone
  | unanswered heq hlists hopen =>
    subst heq
    refine resolveRuntime_of_unpublished hlists defaultImage hopen.considered.toMatching
      fun published hpublish => ?_
    rw [publish_eq_unanswered_iff.mpr ⟨_, hopen⟩] at hpublish
    cases hpublish
  | unpublished heq hlists hmatching hnone =>
    subst heq
    refine resolveRuntime_of_unpublished hlists defaultImage hmatching fun published hpublish => ?_
    rw [publish_eq_absent_iff.mpr hnone] at hpublish
    cases hpublish

/-- A resolution chooses a release or has a reason to fail. -/
theorem chosen_or_fails (runtime : Runtime) (request : RuntimeRequest) (answers : Answers) :
    (request.runtime = runtime ∧ ∃ listed release digest, Lists answers runtime listed ∧
      Chosen answers listed request release digest) ∨
      ∃ error, FailsWith answers runtime request error := by
  by_cases hruntime : request.runtime = runtime
  · by_cases hlisted : ∃ listed, Lists answers runtime listed
    · obtain ⟨listed, hlists⟩ := hlisted
      by_cases hmatching : ∃ release, Matching listed request release
      · obtain ⟨release, hmatching⟩ := hmatching
        obtain ⟨chosen, digest, hchosen⟩ | ⟨other, hopen⟩ | hnone := chosen_or answers request listed
        · exact .inl ⟨hruntime, listed, chosen, digest, hlists, hchosen⟩
        · exact .inr ⟨_, .unanswered hruntime hlists hopen⟩
        · exact .inr ⟨_, .unpublished hruntime hlists hmatching hnone⟩
      · exact .inr ⟨_, .unmatched hruntime hlists (not_exists.mp hmatching)⟩
    · exact .inr ⟨_, .unlisted hruntime (not_exists.mp hlisted)⟩
  · exact .inr ⟨_, .malformed hruntime⟩

/-- **Release selection.**  A resolution succeeds exactly with the first published release among those
considered, which are the first three of the listed, supported and requested ones; and it fails
exactly for want of a listing, of a matching release, of a published one among those considered, or
of an answer about one of these before any is known to be published. -/
theorem resolveRuntime_selects (runtime : Runtime) (request : RuntimeRequest)
    (defaultImage : String) (answers : Answers) :
    (∀ resolved, resolveRuntime runtime (some request) defaultImage answers = .ok resolved ↔
      request.runtime = runtime ∧ ∃ listed release digest, Lists answers runtime listed ∧
        Chosen answers listed request release digest ∧
        resolved = ⟨runtime, some (versionText release.1), imageRepository runtime ++ "@" ++ digest,
          request.field ++ " " ++ request.value⟩) ∧
    ∀ error, resolveRuntime runtime (some request) defaultImage answers = .error error ↔
      FailsWith answers runtime request error := by
  constructor
  · intro resolved
    constructor
    · intro hok
      obtain ⟨rfl, listed, release, digest, hlists, hchosen⟩ | ⟨error, hfails⟩ :=
        chosen_or_fails runtime request answers
      · rw [resolveRuntime_of_chosen hlists defaultImage hchosen] at hok
        exact ⟨rfl, listed, release, digest, hlists, hchosen, (Except.ok.inj hok).symm⟩
      · rw [resolveRuntime_of_fails hfails] at hok
        cases hok
    · rintro ⟨rfl, listed, release, digest, hlists, hchosen, rfl⟩
      exact resolveRuntime_of_chosen hlists defaultImage hchosen
  · intro error
    refine ⟨fun herror => ?_, fun hfails => resolveRuntime_of_fails hfails defaultImage⟩
    obtain ⟨rfl, listed, release, digest, hlists, hchosen⟩ | ⟨error', hfails⟩ :=
      chosen_or_fails runtime request answers
    · rw [resolveRuntime_of_chosen hlists defaultImage hchosen] at herror
      cases herror
    · rw [resolveRuntime_of_fails hfails] at herror
      cases herror
      exact hfails

end Resolved

/-! ## A run -/

section Sample

/-- A request for any version from 20 on. -/
def sampleRequest : RuntimeRequest where
  runtime := .node
  field := "engines.node"
  value := ">=20"
  wanted := ">=20"
  versions := some ⟨[⟨some ⟨⟨20, 0, 0, false⟩, true⟩, none⟩]⟩

/-- The index in no order, with a release that is not LTS, one below the floor and one twice. -/
def sampleIndex : List IndexItem :=
  [⟨some "v24.1.0", none⟩, ⟨some "v18.20.0", some "Hydrogen"⟩, ⟨some "v20.19.0", some "Iron"⟩,
    ⟨some "v22.11.0", none⟩, ⟨some "nightly", none⟩, ⟨some "v22.11.0", some "Jod"⟩]

def sampleDigest : String :=
  "sha256:0123456789abcdef0123456789abcdef0123456789abcdef0123456789abcdef"

/-- The newest LTS release has no image; about the one that is not LTS there is no answer. -/
def sampleAnswers : Answers where
  index := some sampleIndex
  tagPage _ := none
  manifest url :=
    if url = "/v2/library/node/manifests/22.11.0-slim" then some ⟨404, "", ""⟩
    else if url = "/v2/library/node/manifests/20.19.0-slim" then
      some ⟨200, sampleDigest, "application/vnd.oci.image.index.v1+json; charset=utf-8"⟩
    else none

theorem sample_matching {release : Version × Bool} :
    Matching (sampleIndex.filterMap nodeRelease) sampleRequest release ↔
      release = (⟨22, 11, 0⟩, true) ∨ release = (⟨20, 19, 0⟩, true) ∨
        release = (⟨24, 1, 0⟩, false) := by
  have hmatching : matching sampleRequest (sampleIndex.filterMap nodeRelease) =
      [(⟨22, 11, 0⟩, true), (⟨20, 19, 0⟩, true), (⟨24, 1, 0⟩, false)] := by decide +kernel
  rw [← mem_matching_iff, hmatching, List.mem_cons, List.mem_cons, List.mem_singleton]

/-- Before the second LTS release there is the first one only. -/
theorem sample_precedes {other : Version × Bool}
    (h : Matching (sampleIndex.filterMap nodeRelease) sampleRequest other)
    (hprecedes : Precedes other (⟨20, 19, 0⟩, true)) : other = (⟨22, 11, 0⟩, true) := by
  obtain rfl | rfl | rfl := sample_matching.mp h
  · rfl
  · exact absurd hprecedes (by decide)
  · exact absurd hprecedes (by decide)

/-- The second LTS release is chosen, although nothing is known about the release after it. -/
theorem resolveRuntime_selects_sample :
    resolveRuntime .node (some sampleRequest) "" sampleAnswers =
      .ok ⟨.node, some "20.19.0", "docker.io/library/node@" ++ sampleDigest,
        "engines.node >=20"⟩ := by
  refine ((resolveRuntime_selects .node sampleRequest "" sampleAnswers).1 _).mpr
    ⟨rfl, _, (⟨20, 19, 0⟩, true), sampleDigest, .node rfl, ⟨⟨?_, ?_⟩, ?_, ?_⟩, by decide⟩
  · exact sample_matching.mpr (.inr (.inl rfl))
  · have hsubset : {other | Matching (sampleIndex.filterMap nodeRelease) sampleRequest other ∧
        Precedes other (⟨20, 19, 0⟩, true)} ⊆ {(⟨22, 11, 0⟩, true)} :=
      fun other hother => sample_precedes hother.1 hother.2
    refine (Set.encard_le_encard hsubset).trans_lt ?_
    rw [Set.encard_singleton]
    decide
  · have hmanifest : sampleAnswers.manifest ("/v2/" ++ path .node ++ "/manifests/" ++
        versionText ⟨20, 19, 0⟩ ++ "-slim") =
          some ⟨200, sampleDigest, "application/vnd.oci.image.index.v1+json; charset=utf-8"⟩ := by
      decide +kernel
    exact .published hmanifest (by decide +kernel) (by decide +kernel)
  · intro other hother hprecedes
    obtain rfl := sample_precedes hother.toMatching hprecedes
    have hmanifest : sampleAnswers.manifest ("/v2/" ++ path .node ++ "/manifests/" ++
        versionText ⟨22, 11, 0⟩ ++ "-slim") = some ⟨404, "", ""⟩ := by decide +kernel
    exact .absent hmanifest

end Sample

end RuntimeImages
end Helper
end OpenstackPlatform
