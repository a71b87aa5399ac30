import OpenstackPlatform.Helper.RuntimeImages
import OpenstackPlatform.Library.Checks
import OpenstackPlatform.RuntimeVersions.Requests

/-!
# The evidence of a resolved runtime

The helper reports the runtime that it resolved (`ResolvedRuntime.evidence`), and the controller
checks it with `resolved_runtime` of `runtime_versions.py`: the default is the policy's image, and
anything else is a supported release, pinned in its official repository, that satisfies the request
its source names.  The request is read again from the source, its field and its value with a space
between them.

* `resolvedRuntime`.
* `resolvedRuntime_iff`: what the helper resolved is accepted unless the request has no text.
-/

namespace OpenstackPlatform
namespace Helper
namespace RuntimeImages

open Library Library.Checks RuntimeVersions

/-! ## The check -/

/-- `DEFAULT_SOURCE` -/
def defaultSource : String := "default"

/-- `_SOURCE_FIELDS` -/
def sourceFields : Runtime → List String
  | .node => "engines.node" :: Runtime.node.versionFiles
  | .bun => "packageManager" :: "engines.bun" :: Runtime.bun.versionFiles

/-- A reported runtime: an object with these four fields. -/
structure Evidence where
  runtime : String
  version : Option String
  image : String
  source : String
  deriving DecidableEq, Repr

/-- `ResolvedRuntime.evidence` -/
def ResolvedRuntime.evidence (resolved : ResolvedRuntime) : Evidence :=
  ⟨resolved.runtime.key, resolved.version, resolved.image, resolved.source⟩

/-- The request of a source, if there is one that a release satisfies. -/
def checkRequest (runtime : Runtime) (source field requested : String) (version : Version) :
    Except RequestError Unit :=
  if requested = "lts/*" ∧ field ∈ Runtime.node.versionFiles then .ok ()
  else do
    let request ← runtimeRequest runtime (packageWith runtime field requested)
      (filesWith field requested)
    demand (request.any fun request => request.source == source &&
        request.versions.any fun range => range.admits version)
      (.validation "resolved runtime version does not satisfy its source")

/-- `resolved_runtime` for a release. -/
def resolvedRelease (value : Evidence) (runtime : Runtime) : Except RequestError ResolvedRuntime :=
  match value.version.bind fun text => parseVersion text.toList with
  | none => .error (.validation "resolved runtime version is not a supported release")
  | some version => do
    demand (isSupported runtime version)
      (.validation "resolved runtime version is not a supported release")
    demand (Validation.isOciDigestPin value.image)
      (.validation "resolved runtime image must be an image@sha256 digest pin")
    demand ((imageRepository runtime ++ "@").toList.isPrefixOf value.image.toList)
      (.validation "resolved runtime image is outside its official repository")
    demand (value.source.length ≤ maximumRequestLength + 32)
      (.validation "resolved runtime source is malformed")
    let field := value.source.toList.takeWhile (· ≠ ' ')
    let requested := value.source.toList.drop (field.length + 1)
    demand ((sourceFields runtime).contains (String.ofList field) && !requested.isEmpty)
      (.validation "resolved runtime source is malformed")
    checkRequest runtime value.source (String.ofList field) (String.ofList requested) version
    return ⟨runtime, value.version, value.image, value.source⟩

/-- `resolved_runtime` -/
def resolvedRuntime (value : Evidence) (runtime : Runtime) (defaults : Runtime → String) :
    Except RequestError ResolvedRuntime :=
  if value.runtime ≠ runtime.key then
    .error (.validation "resolved runtime differs from the configured runtime")
  else if value.source = defaultSource then
    if value.version.isSome ∨ value.image ≠ defaults runtime then
      .error (.validation "default runtime must be the policy image")
    else .ok ⟨runtime, none, defaults runtime, defaultSource⟩
  else resolvedRelease value runtime

/-! ## Releases have exact versions -/

variable {release : Version × Bool}

theorem exists_text_of_nodeRelease {item : IndexItem} (h : nodeRelease item = some release) :
    ∃ text, parseVersion text = some release.1 := by
  obtain ⟨version, hversion, rfl⟩ := Option.map_eq_some_iff.mp h
  obtain ⟨name, -, hname⟩ := Option.bind_eq_some_iff.mp hversion
  unfold nodeVersion at hname
  split at hname
  · exact ⟨_, hname⟩
  · cases hname

theorem exists_text_of_bunRelease {tag : Option String} (h : bunRelease tag = some release) :
    ∃ text, parseVersion text = some release.1 := by
  obtain ⟨version, hversion, rfl⟩ := Option.map_eq_some_iff.mp h
  obtain ⟨name, -, hname⟩ := Option.bind_eq_some_iff.mp hversion
  unfold bunVersion at hname
  split at hname
  · exact ⟨_, hname⟩
  · cases hname

variable {runtime : Runtime}

/-- Every version that is listed was read from a text. -/
theorem exists_text_of_lists {answers : Answers} {listed : List (Version × Bool)}
    (h : Lists answers runtime listed) (hmem : release ∈ listed) :
    ∃ text, parseVersion text = some release.1 := by
  cases h with
  | node hindex =>
    obtain ⟨item, -, hitem⟩ := List.mem_filterMap.mp hmem
    exact exists_text_of_nodeRelease hitem
  | bun htags =>
    obtain ⟨tag, -, htag⟩ := List.mem_filterMap.mp hmem
    exact exists_text_of_bunRelease htag

/-- The text of a version that was read is read as the version. -/
theorem parseVersion_versionText {text : List Char} {version : Version}
    (h : parseVersion text = some version) :
    parseVersion (versionText version).toList = some version := by
  obtain ⟨-, hbounds⟩ := parseVersion_eq_some_iff.mp h
  refine parseVersion_eq_some_iff.mpr ⟨?_, hbounds⟩
  rw [intercalate_cons_cons, intercalate_cons_cons, intercalate_singleton]
  simp only [versionText, String.toList_append]
  have hdigits : ∀ n : ℕ, (toString n).toList = Nat.toDigits 10 n := fun n => by
    rw [Nat.toString_eq_repr, Nat.toList_repr]
  rw [hdigits, hdigits, hdigits]
  simp

/-! ## Images -/

variable {digest : String}

/-- A digest is `sha256:` and 64 hexadecimal digits. -/
theorem of_isDigest (h : isDigest digest = true) :
    digest.toList = "sha256:".toList ++ digest.toList.drop 7 ∧
      Validation.isSha256Hex (String.ofList (digest.toList.drop 7)) = true := by
  rw [isDigest, Bool.and_eq_true, beq_iff_eq] at h
  refine ⟨?_, h.2⟩
  rw [← h.1, List.take_append_drop]

theorem at_notMem_digest (h : isDigest digest = true) : '@' ∉ digest.toList := by
  obtain ⟨heq, hhex⟩ := of_isDigest h
  rw [Validation.isSha256Hex, Bool.and_eq_true, String.toList_ofList] at hhex
  rw [heq, List.mem_append, not_or]
  exact ⟨by decide, fun hmem => absurd (List.all_eq_true.mp hhex.2 _ hmem) (by decide)⟩

theorem length_digest (h : isDigest digest = true) : digest.length = 71 := by
  obtain ⟨heq, hhex⟩ := of_isDigest h
  rw [Validation.isSha256Hex, Bool.and_eq_true, beq_iff_eq, String.length_ofList] at hhex
  rw [← String.length_toList, heq, List.length_append, hhex.1]
  rfl

/-- The image that the helper names is a digest pin. -/
theorem isOciDigestPin_image (runtime : Runtime) (h : isDigest digest = true) :
    Validation.isOciDigestPin (imageRepository runtime ++ "@" ++ digest) = true := by
  have hrepository : '@' ∉ (imageRepository runtime).toList := by
    cases runtime <;> decide
  have htext : (imageRepository runtime ++ "@" ++ digest).toList =
      (imageRepository runtime).toList ++ '@' :: digest.toList := by
    rw [String.toList_append, String.toList_append, List.append_assoc]
    rfl
  have hsplit : (imageRepository runtime ++ "@" ++ digest).toList.splitOn '@' =
      [(imageRepository runtime).toList, digest.toList] := by
    rw [htext, List.splitOn_append_cons_self_of_not_mem hrepository,
      List.splitOn_eq_singleton (at_notMem_digest h)]
  have hlength : (imageRepository runtime ++ "@" ++ digest).length ≤ 512 := by
    rw [String.length_append, String.length_append, length_digest h]
    cases runtime <;> decide
  have hcomponents : 2 ≤ ((imageRepository runtime).toList.splitOn '/').length ∧
      ((imageRepository runtime).toList.splitOn '/').all
        (fun c => !c.isEmpty && c.all fun d => !Validation.isSpace d) = true := by
    cases runtime <;> decide
  rw [isDigest, Bool.and_eq_true] at h
  unfold Validation.isOciDigestPin
  rw [hsplit]
  simp only [hlength, hcomponents.1, hcomponents.2, h.1, h.2, decide_true, Bool.and_true]

/-! ## Sources -/

variable {request : RuntimeRequest}

/-- The field of a request is one that its source may name, and has no blank. -/
theorem field_of_origin (h : Origin runtime request) : request.field ∈ sourceFields runtime := by
  cases h with
  | manager hruntime hfield =>
    rw [hruntime, hfield]
    exact List.mem_cons_self
  | engines hfield =>
    rw [hfield]
    cases runtime with
    | node => exact List.mem_cons_self
    | bun => exact List.mem_cons_of_mem _ List.mem_cons_self
  | file hfield =>
    cases runtime with
    | node => exact List.mem_cons_of_mem _ hfield
    | bun => exact List.mem_cons_of_mem _ (List.mem_cons_of_mem _ hfield)
  | lts hruntime hfield =>
    rw [hruntime]
    exact List.mem_cons_of_mem _ hfield

theorem of_mem_sourceFields {field : String} (h : field ∈ sourceFields runtime) :
    ' ' ∉ field.toList ∧ field.length ≤ 14 := by
  have hall : ∀ f ∈ sourceFields runtime, ' ' ∉ f.toList ∧ f.length ≤ 14 := by
    cases runtime <;> decide
  exact hall field h

theorem length_value (h : Origin runtime request) :
    request.value.length ≤ maximumRequestLength := by
  cases h with
  | manager hruntime hfield wanted hvalue version hversion =>
    have hlength := length_of_parseVersion hversion
    rw [← String.length_toList, hvalue, List.length_append]
    have hbun : "bun@".toList.length = 4 := rfl
    rw [hbun, maximumRequestLength]
    omega
  | engines hfield hrequest => exact (of_rangeRequest hrequest).1
  | file hfield hne hlts line hline hvalue hrequest => exact (of_rangeRequest hrequest).1
  | lts hruntime hfield hrequest =>
    rw [hrequest]
    show "lts/*".length ≤ maximumRequestLength
    decide

/-- The parts of a source: the field and the value of its request. -/
theorem partition_source {field value : String} (h : ' ' ∉ field.toList) :
    (field ++ " " ++ value).toList.takeWhile (· ≠ ' ') = field.toList ∧
      (field ++ " " ++ value).toList.drop (field.toList.length + 1) = value.toList := by
  have htext : (field ++ " " ++ value).toList = field.toList ++ ' ' :: value.toList := by
    rw [String.toList_append, String.toList_append, List.append_assoc]
    rfl
  rw [htext]
  constructor
  · rw [List.takeWhile_append_of_pos fun c hc => ?_]
    · simp
    · rw [decide_eq_true_eq]
      rintro rfl
      exact h hc
  · rw [List.drop_append]
    simp

/-! ## What the helper resolved -/

/-- What a resolution says of its release. -/
theorem of_resolveRuntime {defaultImage : String} {answers : Answers} {resolved : ResolvedRuntime}
    (h : resolveRuntime runtime (some request) defaultImage answers = .ok resolved) :
    ∃ version lts digest text, parseVersion text = some version ∧ isDigest digest = true ∧
      isSupported runtime version = true ∧ isAdmitted request (version, lts) = true ∧
      resolved = ⟨runtime, some (versionText version), imageRepository runtime ++ "@" ++ digest,
        request.source⟩ := by
  obtain ⟨rfl, listed, ⟨version, lts⟩, digest, hlists, hchosen⟩ | ⟨error, hfails⟩ :=
    chosen_or_fails runtime request answers
  · rw [resolveRuntime_of_chosen hlists defaultImage hchosen] at h
    obtain ⟨text, htext⟩ := exists_text_of_lists hlists hchosen.considered.mentioned.mem
    refine ⟨version, lts, digest, text, htext, ?_,
      isSupported_iff.mpr hchosen.considered.supported,
      isAdmitted_iff.mpr hchosen.considered.asked, (Except.ok.inj h).symm⟩
    cases hchosen.published with
    | published _ hdigest _ => exact hdigest
  · rw [resolveRuntime_of_fails hfails] at h
    cases h

/-- A source that is accepted names a request with a text. -/
theorem value_ne_of_resolvedRelease {value : Evidence} {resolved : ResolvedRuntime}
    (h : resolvedRelease value runtime = .ok resolved) :
    value.source.toList.drop ((value.source.toList.takeWhile (· ≠ ' ')).length + 1) ≠ [] := by
  unfold resolvedRelease at h
  split at h
  next => cases h
  next =>
    simp only [bind_ok_iff, demand_ok_iff, Bool.and_eq_true, Bool.not_eq_true',
      List.isEmpty_eq_false_iff] at h
    obtain ⟨-, -, -, -, -, -, -, -, -, hrequested, -⟩ := h
    exact hrequested.2

/-- The request of a source is the one that the helper resolved. -/
theorem checkRequest_origin (horigin : Origin runtime request) {version : Version} {lts : Bool}
    (hadmitted : isAdmitted request (version, lts) = true) :
    checkRequest runtime request.source request.field request.value version = .ok () := by
  unfold checkRequest
  split
  next => rfl
  next hnot =>
    have hversions : request.versions ≠ none := by
      cases horigin with
      | manager hruntime hfield wanted hvalue version' hversion hrequest =>
        unfold managerRequest at hrequest
        split at hrequest
        next => cases hrequest
        next =>
          rw [of_checked hrequest]
          simp
      | engines hfield hrequest =>
        obtain ⟨-, versions, -, heq⟩ := of_rangeRequest hrequest
        rw [heq]
        simp
      | file hfield hne hlts line hline hvalue hrequest =>
        obtain ⟨-, versions, -, heq⟩ := of_rangeRequest hrequest
        rw [heq]
        simp
      | lts hruntime hfield hrequest =>
        refine absurd ⟨?_, hfield⟩ hnot
        rw [hrequest]
    obtain ⟨range, hrange⟩ := Option.ne_none_iff_exists'.mp hversions
    rw [bind_ok_iff]
    refine ⟨some request, runtimeRequest_origin horigin hversions, demand_ok_iff.mpr ?_⟩
    rw [isAdmitted, hrange] at hadmitted
    rw [Option.any_some, hrange, Option.any_some, beq_self_eq_true, Bool.true_and]
    exact hadmitted

theorem resolvedRuntime_default (runtime : Runtime) (defaults : Runtime → String) :
    resolvedRuntime ⟨runtime.key, none, defaults runtime, defaultSource⟩ runtime defaults =
      .ok ⟨runtime, none, defaults runtime, defaultSource⟩ := by
  unfold resolvedRuntime
  rw [if_neg (not_not.mpr rfl), if_pos rfl, if_neg]
  simp

theorem resolvedRuntime_release {value : Evidence} (defaults : Runtime → String)
    (hruntime : value.runtime = runtime.key) (hsource : value.source ≠ defaultSource) :
    resolvedRuntime value runtime defaults = resolvedRelease value runtime := by
  rw [resolvedRuntime, if_neg (not_not.mpr hruntime), if_neg hsource]

/-- A release with the evidence of a resolution is accepted, if its request has a text. -/
theorem resolvedRelease_eq_ok {text : List Char} {version : Version} {lts : Bool}
    (horigin : Origin runtime request) (htext : parseVersion text = some version)
    (hdigest : isDigest digest = true) (hsupported : isSupported runtime version = true)
    (hadmitted : isAdmitted request (version, lts) = true) (hvalue : request.value ≠ "") :
    resolvedRelease ⟨runtime.key, some (versionText version),
      imageRepository runtime ++ "@" ++ digest, request.source⟩ runtime =
        .ok ⟨runtime, some (versionText version), imageRepository runtime ++ "@" ++ digest,
          request.source⟩ := by
  have hfield := field_of_origin horigin
  obtain ⟨hblank, hshort⟩ := of_mem_sourceFields hfield
  obtain ⟨htake, hdrop⟩ := @partition_source request.field request.value hblank
  have hlength : request.source.length ≤ maximumRequestLength + 32 := by
    have hbound := length_value horigin
    have hspace : " ".length = 1 := rfl
    rw [RuntimeRequest.source, String.length_append, String.length_append, hspace]
    omega
  have hrepository : (imageRepository runtime ++ "@").toList.isPrefixOf
      (imageRepository runtime ++ "@" ++ digest).toList = true := by
    have happend : (imageRepository runtime ++ "@" ++ digest).toList =
        (imageRepository runtime ++ "@").toList ++ digest.toList := String.toList_append
    rw [happend, List.isPrefixOf_iff_prefix]
    exact List.prefix_append _ _
  have hrequested : (sourceFields runtime).contains (String.ofList request.field.toList) = true ∧
      (!request.value.toList.isEmpty) = true := by
    rw [String.ofList_toList, List.contains_iff_mem, Bool.not_eq_true', List.isEmpty_eq_false_iff]
    exact ⟨hfield, fun hnil => hvalue (String.toList_eq_nil_iff.mp hnil)⟩
  have hcheck := checkRequest_origin horigin hadmitted
  unfold resolvedRelease
  rw [Option.bind_some, parseVersion_versionText htext]
  simp only [bind_ok_iff, demand_ok_iff, Bool.and_eq_true]
  refine ⟨(), hsupported, (), isOciDigestPin_image runtime hdigest, (), hrepository, (),
    decide_eq_true hlength, (), ?_, (), ?_, rfl⟩
  · rw [RuntimeRequest.source, htake, hdrop]
    exact hrequested
  · rw [RuntimeRequest.source, htake, hdrop, String.ofList_toList, String.ofList_toList]
    exact hcheck

/-- **The controller accepts what the helper resolved, unless the request has no text.**  The source
that the evidence names ends with the text; with an empty one the pattern of sources refuses it,
although the helper has resolved a version for it. -/
theorem resolvedRuntime_iff {runtime : Runtime} {package : Package}
    {readFile : String → Except RequestError (Option String)} {request : Option RuntimeRequest}
    {defaults : Runtime → String} {answers : Answers} {resolved : ResolvedRuntime}
    (hrequest : runtimeRequest runtime package readFile = .ok request)
    (hresolved : resolveRuntime runtime request (defaults runtime) answers = .ok resolved) :
    resolvedRuntime resolved.evidence runtime defaults = .ok resolved ↔
      ∀ r, request = some r → r.value ≠ "" := by
  cases request with
  | none =>
    obtain rfl := Except.ok.inj hresolved
    exact iff_of_true (resolvedRuntime_default runtime defaults) fun r h => absurd h (by simp)
  | some request =>
    obtain ⟨version, lts, digest, text, htext, hdigest, hsupported, hadmitted, rfl⟩ :=
      of_resolveRuntime hresolved
    have horigin := origin_of_runtimeRequest hrequest
    have hblank := (of_mem_sourceFields (field_of_origin horigin)).1
    have hsource : request.source ≠ defaultSource := by
      intro heq
      have hmem : ' ' ∈ request.source.toList := by
        rw [RuntimeRequest.source, String.toList_append, String.toList_append]
        simp
      rw [heq] at hmem
      exact absurd hmem (by decide)
    rw [resolvedRuntime_release defaults rfl hsource]
    constructor
    · intro h r hr
      obtain rfl := Option.some.inj hr
      have hne := value_ne_of_resolvedRelease h
      obtain ⟨htake, hdrop⟩ := @partition_source request.field request.value hblank
      change request.source.toList.drop
        ((request.source.toList.takeWhile (· ≠ ' ')).length + 1) ≠ [] at hne
      rw [RuntimeRequest.source, htake, hdrop] at hne
      intro heq
      rw [heq] at hne
      exact hne rfl
    · intro h
      exact resolvedRelease_eq_ok horigin htext hdigest hsupported hadmitted (h request rfl)

/-- An index with one release, and its image. -/
def oneRelease : Answers where
  index := some [⟨some "v22.11.0", some "Jod"⟩]
  tagPage := fun _ => none
  manifest := fun _ => some ⟨200, "sha256:" ++ String.ofList (List.replicate 64 'a'),
    "application/vnd.oci.image.index.v1+json"⟩

/-- The `package.json` of an app with a range in `engines`. -/
def enginesPackage (value : String) : Package := { engines := fun _ => some (some value) }

/-- The request that it makes, when the range is one interval. -/
def enginesRequest (value : String) (low : Option (Bound Key)) : RuntimeRequest :=
  ⟨.node, "engines.node", value, value, some ⟨[⟨low, none⟩]⟩⟩

/-- What it is resolved to. -/
def enginesResolved (value : String) : ResolvedRuntime :=
  ⟨.node, some "22.11.0", "docker.io/library/node@sha256:" ++ String.ofList (List.replicate 64 'a'),
    "engines.node " ++ value⟩

theorem resolvedRuntime_iff_engines :
    resolvedRuntime (enginesResolved ">=22").evidence .node (fun _ => "") =
      .ok (enginesResolved ">=22") := by
  have hrequest : runtimeRequest .node (enginesPackage ">=22") (fun _ => .ok none) =
      .ok (some (enginesRequest ">=22" (some ⟨⟨22, 0, 0, false⟩, true⟩))) := by
    decide +kernel
  have hresolved : resolveRuntime .node
      (some (enginesRequest ">=22" (some ⟨⟨22, 0, 0, false⟩, true⟩))) "" oneRelease =
        .ok (enginesResolved ">=22") := by
    decide +kernel
  refine (@resolvedRuntime_iff _ _ _ _ (fun _ => "") _ _ hrequest hresolved).mpr fun r hr => ?_
  cases hr
  decide

/-- **An empty range builds, and its evidence is refused.**  `engines.node` may be the empty text,
which asks for any version. -/
theorem empty_range_refused :
    runtimeRequest .node (enginesPackage "") (fun _ => .ok none) =
      .ok (some (enginesRequest "" none)) ∧
    resolveRuntime .node (some (enginesRequest "" none)) "" oneRelease = .ok (enginesResolved "") ∧
    resolvedRuntime (enginesResolved "").evidence .node (fun _ => "") =
      .error (.validation "resolved runtime source is malformed") := by
  decide +kernel

end RuntimeImages
end Helper
end OpenstackPlatform
