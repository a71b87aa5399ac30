import OpenstackPlatform.Controller.DeploymentConfig
import OpenstackPlatform.Helper.NomadJobs
import OpenstackPlatform.Library.Checks
import OpenstackPlatform.Library.Lines
import OpenstackPlatform.Library.Program

/-!
# Whether the content of an image is still in the registry

`registry_artifact.py`: before a retained image is deployed again, the helper walks from its pinned
digest through image indexes to manifests and asks the registry for each config and layer.  Two sets
shared by the whole walk remember which manifests and which blobs were asked for, so a registry that
refers in circles is asked at most 32 + 512 times.

A blob is remembered by its digest alone.  A later descriptor of the same blob is passed over before
its size is compared, so the walk confirms every descriptor exactly when no blob is described with
two sizes.

* `World`: the registry, the hash and the reader of JSON, all arbitrary.
* `verifyImage`: the code, as a program over what has been visited.
* `Reaches`, `Describes`, `Confirmed`: what the registry serves, apart from the walk.
* `manifest_always`: what one call of the recursive walk does.
* `verifyImage_available`: the bounds, and what an answer of `available` means.
-/

namespace OpenstackPlatform

open Library Library.JsonText Validation

namespace Helper

namespace RegistryArtifact

/-! ## The surroundings -/

/-- A request below `/v2/projects/{slug}/app`. -/
inductive Query where
  /-- `GET manifests/{digest}` -/
  | manifest (digest : Text)
  /-- `HEAD blobs/{digest}` -/
  | blob (digest : Text)
  deriving DecidableEq

/-- `HttpResult` -/
structure Response where
  status : Nat
  header : String → Option Text
  body : List UInt8

/-- What comes of a request. -/
inductive Answer where
  | response (result : Response)
  /-- The deadline has passed. -/
  | late
  /-- `http` raises. -/
  | raised (message : String)

/-- The registry with the clock, `hashlib.sha256` in hexadecimal, and the reader of JSON, which
keeps the members of an object in order, duplicates included. -/
structure World where
  answer : Query → Answer
  sha256 : List UInt8 → Text
  loads : List UInt8 → Option Value

/-- What `verify_image` raises. -/
inductive Error where
  | helper (error : Helper.Error)
  | type (message : String)
  | http (message : String)
  | recursion
  deriving DecidableEq, Repr

/-- `fail` -/
def unavailable : Error :=
  .helper
    (.helperAction "ARTIFACT_UNAVAILABLE" "retained image content is unavailable or invalid")

/-- `if not condition: raise error` -/
def require (condition : Bool) (error : Error) : Except Error Unit :=
  Checks.demand condition error

/-- The response with status 200 to a request. -/
def World.response (w : World) (query : Query) : Except Error Response :=
  match w.answer query with
  | .response result => do
    require (result.status == 200) unavailable
    pure result
  | .late => .error unavailable
  | .raised message => .error (.http message)

/-! ## Documents -/

/-- `_MANIFESTS` -/
def manifestTypes : List Text :=
  ["application/vnd.oci.image.manifest.v1+json",
    "application/vnd.docker.distribution.manifest.v2+json"].map Text.ofString

/-- `_INDEXES` -/
def indexTypes : List Text :=
  ["application/vnd.oci.image.index.v1+json",
    "application/vnd.docker.distribution.manifest.list.v2+json"].map Text.ofString

/-- `[0-9a-f]` -/
def isHexDigit (c : Nat) : Bool := (48 ≤ c && c ≤ 57) || (97 ≤ c && c ≤ 102)

/-- `_DIGEST`: `sha256:[0-9a-f]{64}` -/
def isDigest (t : Text) : Bool :=
  t.take 7 == Text.ofString "sha256:" && (t.drop 7).length == 64 && (t.drop 7).all isHexDigit

/-- `value.get(key)` -/
def get (key : String) (members : List (Text × Value)) : Value :=
  (members.lookup (Text.ofString key)).getD .null

/-- `descriptor` -/
def descriptor : Value → Except Error (Text × Nat)
  | .obj members =>
    match get "digest" members, get "size" members with
    | .str digest, .int size => do
      require (isDigest digest && decide (0 ≤ size)) unavailable
      pure (digest, size.toNat)
    | _, _ => .error unavailable
  | _ => .error unavailable

/-- The decimal is within half a unit in the last place of 2, so its float is 2. -/
def isFloatTwo (mantissa exponent : Int) : Bool :=
  exponent ≤ 0 && 2 * (2 ^ 54 - 1) * (10 : Int) ^ (-exponent).toNat ≤ mantissa * 2 ^ 54 &&
    mantissa * 2 ^ 53 ≤ 2 * (2 ^ 53 + 1) * (10 : Int) ^ (-exponent).toNat

/-- `value == 2` -/
def isTwo : Value → Bool
  | .int n => n == 2
  | .float m e => isFloatTwo m e
  | _ => false

/-- `value in texts`, for a value that can be hashed. -/
def isAmong (texts : List Text) : Value → Bool
  | .str text => texts.contains text
  | _ => false

/-- What a manifest goes on to: other manifests, or the config and the layers. -/
inductive Document where
  | index (children : List Value)
  | image (items : List Value)

/-- The document with these members, by its media type. -/
def documentOf (members : List (Text × Value)) : Except Error Document := do
  require (isTwo (get "schemaVersion" members)) unavailable
  require (Controller.isHashable (get "mediaType" members)) (.type "unhashable type")
  if isAmong indexTypes (get "mediaType" members) then
    match get "manifests" members with
    | .arr children => do
      require (decide (1 ≤ children.length ∧ children.length ≤ 32)) unavailable
      pure (.index children)
    | _ => .error unavailable
  else if isAmong manifestTypes (get "mediaType" members) then
    match get "layers" members with
    | .arr layers => do
      require (decide (layers.length ≤ 512)) unavailable
      pure (.image (get "config" members :: layers))
    | _ => .error unavailable
  else .error unavailable

/-- The document in a body; `pairs` refuses an object with two members of one key. -/
def readDocument (loads : List UInt8 → Option Value) (body : List UInt8) :
    Except Error Document :=
  match loads body with
  | some (.obj members) => do
    require (Controller.distinctKeys (.obj members)) unavailable
    documentOf members
  | _ => .error unavailable

/-! ## The walk -/

/-- The sets `manifests` and `blobs`, in the order they grew, and the requests so far. -/
structure Visit where
  manifests : List Text
  blobs : List Text
  requests : List Query
  deriving DecidableEq

/-- A part of the walk. -/
abbrev Check (α : Type) := Program Visit Error α

/-- `request` -/
def request (w : World) (query : Query) : Check Response := do
  Program.commit fun v => .ok { v with requests := v.requests ++ [query] }
  Program.inspect fun _ => w.response query

/-- The config or a layer of a manifest. -/
def blob (w : World) (item : Value) : Check Unit := do
  let (digest, size) ← Program.inspect fun _ => descriptor item
  let visit ← Program.read id
  if digest ∈ visit.blobs then pure ()
  else if 512 ≤ visit.blobs.length then Program.throw unavailable
  else do
    Program.commit fun v => .ok { v with blobs := v.blobs ++ [digest] }
    let observed ← request w (.blob digest)
    Program.inspect fun _ => require
      (observed.header "docker-content-digest" == some digest &&
        observed.header "content-length" == some (digits size)) unavailable

/-- The body has the digest, and the size where one is expected. -/
def isExpected (w : World) (digest : Text) (expectedSize : Option Nat) (body : List UInt8) : Bool :=
  Text.ofString "sha256:" ++ w.sha256 body == digest &&
    expectedSize.all fun size => body.length == size

/-- `manifest`; the fuel bounds the depth of the recursion. -/
def manifest (w : World) : Nat → Text → Option Nat → Check Unit
  | 0, _, _ => Program.throw .recursion
  | fuel + 1, digest, expectedSize => do
    let visit ← Program.read id
    if digest ∈ visit.manifests then pure ()
    else if 32 ≤ visit.manifests.length then Program.throw unavailable
    else do
      Program.commit fun v => .ok { v with manifests := v.manifests ++ [digest] }
      let result ← request w (.manifest digest)
      Program.inspect fun _ => require (isExpected w digest expectedSize result.body) unavailable
      match ← Program.inspect fun _ => readDocument w.loads result.body with
      | .index children => children.forM fun child => do
        let (childDigest, size) ← Program.inspect fun _ => descriptor child
        manifest w fuel childDigest (some size)
      | .image items => items.forM (blob w)

/-- The answer of `verify_image`. -/
structure Available where
  slug : String
  image : String
  available : Bool
  deriving DecidableEq, Repr

/-- `pin.rsplit("@", 1)[1]` -/
def pinnedDigest (pin : String) : Text :=
  Text.ofString (String.ofList (pin.toList.reverse.takeWhile (· != '@')).reverse)

/-- `slug`, `oci_digest_pin` and the check of the repository. -/
def checkArguments (host applicationSlug image : String) : Except Error Unit := do
  (checkSlug applicationSlug).mapError .helper
  require (isOciDigestPin image)
    (.helper (.validation "retained image must be an image@sha256 digest pin"))
  require ((host ++ "/projects/" ++ applicationSlug ++ "/app@").toList.isPrefixOf image.toList)
    (.helper (.helperAction "INVALID_ARGS"
      "artifact is outside the application registry repository"))

/-- `verify_image` -/
def verifyImage (w : World) (host applicationSlug image : String) : Check Available := do
  Program.inspect fun _ => checkArguments host applicationSlug image
  manifest w 33 (pinnedDigest image) none
  pure ⟨applicationSlug, image, true⟩

/-! ## What the registry serves -/

/-- The registry serves a document for the manifest. -/
def Serves (w : World) (digest : Text) (document : Document) : Prop :=
  ∃ result, w.response (.manifest digest) = .ok result ∧
    readDocument w.loads result.body = .ok document

/-- A manifest is reachable from the root through image indexes. -/
inductive Reaches (w : World) (root : Text) : Text → Prop where
  | root : Reaches w root root
  | child {digest childDigest : Text} {size : Nat} {children : List Value} {child : Value}
      (parent : Reaches w root digest) (served : Serves w digest (.index children))
      (mem : child ∈ children) (described : descriptor child = .ok (childDigest, size)) :
      Reaches w root childDigest

/-- A reachable manifest describes a blob as its config or as a layer. -/
def Describes (w : World) (root blobDigest : Text) (size : Nat) : Prop :=
  ∃ digest items item, Reaches w root digest ∧ Serves w digest (.image items) ∧ item ∈ items ∧
    descriptor item = .ok (blobDigest, size)

/-- The registry confirms a blob with its digest and the size. -/
def Confirmed (w : World) (blobDigest : Text) (size : Nat) : Prop :=
  ∃ observed, w.response (.blob blobDigest) = .ok observed ∧
    observed.header "docker-content-digest" = some blobDigest ∧
    observed.header "content-length" = some (digits size)

/-- The entries of a document satisfy a condition on children or one on blobs. -/
def Entries (child blob : Text → Prop) : Document → Prop
  | .index children => ∀ entry ∈ children, ∃ digest size,
      descriptor entry = .ok (digest, size) ∧ child digest
  | .image items => ∀ entry ∈ items, ∃ digest size,
      descriptor entry = .ok (digest, size) ∧ blob digest

/-- The manifest has a body with its digest, and the entries of its document have been visited. -/
def Settled (w : World) (v : Visit) (digest : Text) : Prop :=
  ∃ result document, w.response (.manifest digest) = .ok result ∧
    Text.ofString "sha256:" ++ w.sha256 result.body = digest ∧
    readDocument w.loads result.body = .ok document ∧
    Entries (· ∈ v.manifests) (· ∈ v.blobs) document

/-! ## Requests -/

/-- The manifests among the requests. -/
def manifestRequests (requests : List Query) : List Text :=
  requests.filterMap fun
    | .manifest digest => some digest
    | .blob _ => none

/-- The blobs among the requests. -/
def blobRequests (requests : List Query) : List Text :=
  requests.filterMap fun
    | .manifest _ => none
    | .blob digest => some digest

/-- The sets are within their bounds, and nothing was asked for that is not in them. -/
structure Tidy (v : Visit) : Prop where
  nodupManifests : v.manifests.Nodup
  nodupBlobs : v.blobs.Nodup
  manifestBound : v.manifests.length ≤ 32
  blobBound : v.blobs.length ≤ 512
  manifests : manifestRequests v.requests <+: v.manifests
  blobs : blobRequests v.requests <+: v.blobs

/-- All that is in the sets was asked for. -/
structure Level (v : Visit) : Prop extends Tidy v where
  askedManifests : manifestRequests v.requests = v.manifests
  askedBlobs : blobRequests v.requests = v.blobs

section Requests

variable {requests : List Query} {digest : Text}

@[simp] theorem manifestRequests_manifest :
    manifestRequests (requests ++ [.manifest digest]) = manifestRequests requests ++ [digest] := by
  simp [manifestRequests]

@[simp] theorem manifestRequests_blob :
    manifestRequests (requests ++ [.blob digest]) = manifestRequests requests := by
  simp [manifestRequests]

@[simp] theorem blobRequests_manifest :
    blobRequests (requests ++ [.manifest digest]) = blobRequests requests := by
  simp [blobRequests]

@[simp] theorem blobRequests_blob :
    blobRequests (requests ++ [.blob digest]) = blobRequests requests ++ [digest] := by
  simp [blobRequests]

theorem mem_manifestRequests_iff :
    digest ∈ manifestRequests requests ↔ Query.manifest digest ∈ requests := by
  rw [manifestRequests, List.mem_filterMap]
  constructor
  · rintro ⟨query, hquery, heq⟩
    cases query with
    | manifest d => exact Option.some.inj heq ▸ hquery
    | blob d => cases heq
  · intro h
    exact ⟨_, h, rfl⟩

theorem mem_blobRequests_iff :
    digest ∈ blobRequests requests ↔ Query.blob digest ∈ requests := by
  rw [blobRequests, List.mem_filterMap]
  constructor
  · rintro ⟨query, hquery, heq⟩
    cases query with
    | manifest d => cases heq
    | blob d => exact Option.some.inj heq ▸ hquery
  · intro h
    exact ⟨_, h, rfl⟩

end Requests

section Levels

variable {v : Visit} {digest : Text}

theorem nodup_append_singleton {l : List Text} (hl : l.Nodup) (h : digest ∉ l) :
    (l ++ [digest]).Nodup := by
  rw [List.nodup_append]
  refine ⟨hl, List.nodup_singleton digest, fun a ha b hb => ?_⟩
  rw [List.mem_singleton.mp hb]
  rintro rfl
  exact h ha

/-- A manifest enters its set. -/
theorem Level.addManifest (hv : Level v) (hd : digest ∉ v.manifests)
    (hlength : v.manifests.length < 32) :
    Tidy { v with manifests := v.manifests ++ [digest] } where
  nodupManifests := nodup_append_singleton hv.nodupManifests hd
  nodupBlobs := hv.nodupBlobs
  manifestBound := by
    rw [List.length_append, List.length_singleton]
    omega
  blobBound := hv.blobBound
  manifests := hv.manifests.trans (List.prefix_append _ _)
  blobs := hv.blobs

/-- A manifest that entered its set is asked for. -/
theorem Level.askManifest (hv : Level v) (hd : digest ∉ v.manifests)
    (hlength : v.manifests.length < 32) :
    Level { v with
      manifests := v.manifests ++ [digest], requests := v.requests ++ [.manifest digest] } where
  toTidy := {
    hv.addManifest hd hlength with
    manifests := by simp [hv.askedManifests]
    blobs := by simpa using hv.blobs }
  askedManifests := by simp [hv.askedManifests]
  askedBlobs := by simp [hv.askedBlobs]

/-- A blob enters its set. -/
theorem Level.addBlob (hv : Level v) (hd : digest ∉ v.blobs) (hlength : v.blobs.length < 512) :
    Tidy { v with blobs := v.blobs ++ [digest] } where
  nodupManifests := hv.nodupManifests
  nodupBlobs := nodup_append_singleton hv.nodupBlobs hd
  manifestBound := hv.manifestBound
  blobBound := by
    rw [List.length_append, List.length_singleton]
    omega
  manifests := hv.manifests
  blobs := hv.blobs.trans (List.prefix_append _ _)

/-- A blob that entered its set is asked for. -/
theorem Level.askBlob (hv : Level v) (hd : digest ∉ v.blobs) (hlength : v.blobs.length < 512) :
    Level { v with blobs := v.blobs ++ [digest], requests := v.requests ++ [.blob digest] } where
  toTidy := {
    hv.addBlob hd hlength with
    manifests := by simpa using hv.manifests
    blobs := by simp [hv.askedBlobs] }
  askedManifests := by simp [hv.askedManifests]
  askedBlobs := by simp [hv.askedBlobs]

/-- No request is made twice. -/
theorem Tidy.nodup_requests (hv : Tidy v) : v.requests.Nodup := by
  have hmanifests := hv.manifests.sublist.nodup hv.nodupManifests
  have hblobs := hv.blobs.sublist.nodup hv.nodupBlobs
  generalize v.requests = requests at hmanifests hblobs
  induction requests with
  | nil => exact List.nodup_nil
  | cons query requests ih =>
    cases query with
    | manifest d =>
      have h := List.nodup_cons.mp (show (d :: manifestRequests requests).Nodup from hmanifests)
      exact List.nodup_cons.mpr ⟨fun hm => h.1 (mem_manifestRequests_iff.mpr hm), ih h.2 hblobs⟩
    | blob d =>
      have h := List.nodup_cons.mp (show (d :: blobRequests requests).Nodup from hblobs)
      exact List.nodup_cons.mpr ⟨fun hm => h.1 (mem_blobRequests_iff.mpr hm), ih hmanifests h.2⟩

end Levels

/-! ## One call of the walk -/

section Walk

variable {w : World} {root : Text} {v v' v'' : Visit}

theorem Entries.mono {child child' blob blob' : Text → Prop} {document : Document}
    (h : Entries child blob document) (hchild : ∀ d, child d → child' d)
    (hblob : ∀ d, blob d → blob' d) : Entries child' blob' document := by
  cases document with
  | index children =>
    intro entry hentry
    obtain ⟨digest, size, heq, hd⟩ := h entry hentry
    exact ⟨digest, size, heq, hchild digest hd⟩
  | image items =>
    intro entry hentry
    obtain ⟨digest, size, heq, hd⟩ := h entry hentry
    exact ⟨digest, size, heq, hblob digest hd⟩

/-- What a part of the walk adds to the sets. -/
structure Advance (w : World) (root : Text) (v v' : Visit) : Prop where
  manifests : v.manifests <+: v'.manifests
  blobs : v.blobs <+: v'.blobs
  newManifests : ∀ m ∈ v'.manifests, m ∈ v.manifests ∨ Reaches w root m ∧ Settled w v' m
  newBlobs : ∀ b ∈ v'.blobs, b ∈ v.blobs ∨ ∃ size, Describes w root b size ∧ Confirmed w b size

theorem Settled.mono {m : Text} (h : Settled w v m) (ha : Advance w root v v') :
    Settled w v' m := by
  obtain ⟨result, document, hresult, hhash, hread, hentries⟩ := h
  exact ⟨result, document, hresult, hhash, hread,
    hentries.mono (fun _ hd => ha.manifests.subset hd) fun _ hd => ha.blobs.subset hd⟩

theorem Advance.refl : Advance w root v v where
  manifests := List.prefix_rfl
  blobs := List.prefix_rfl
  newManifests := fun _ hm => .inl hm
  newBlobs := fun _ hb => .inl hb

theorem Advance.trans (h : Advance w root v v') (h' : Advance w root v' v'') :
    Advance w root v v'' where
  manifests := h.manifests.trans h'.manifests
  blobs := h.blobs.trans h'.blobs
  newManifests := by
    intro m hm
    obtain hm | hm := h'.newManifests m hm
    · exact (h.newManifests m hm).imp_right fun hm => ⟨hm.1, hm.2.mono h'⟩
    · exact .inr hm
  newBlobs := fun b hb => (h'.newBlobs b hb).elim (h.newBlobs b) .inr

/-- How a part of the walk ends: it never runs out of depth, and when it returns the sets are level
and have grown soundly. -/
def Outcome (w : World) (root : Text) (v : Visit) (P : Visit → Prop) (r : Except Error Unit)
    (v' : Visit) : Prop :=
  r ≠ .error .recursion ∧ (r = .ok () → Level v' ∧ Advance w root v v' ∧ P v')

theorem Outcome.of_error {P : Visit → Prop} {e : Error} (he : e ≠ .recursion) :
    Outcome w root v P (.error e) v' :=
  ⟨fun h => he (Except.error.inj h), fun h => absurd h (by simp)⟩

theorem Outcome.of_ok {P : Visit → Prop} (hv : Level v') (ha : Advance w root v v') (hP : P v') :
    Outcome w root v P (.ok ()) v' :=
  ⟨fun h => absurd h (by simp), fun _ => ⟨hv, ha, hP⟩⟩

end Walk

section Shallow

variable {α β : Type}

/-- What raises does not raise for want of depth. -/
def Shallow (x : Except Error α) : Prop := ∀ e, x = .error e → e ≠ .recursion

theorem shallow_ok (a : α) : Shallow (.ok a) := fun _ h => absurd h (by simp)

theorem shallow_error {e : Error} (he : e ≠ .recursion) : Shallow (.error e : Except Error α) :=
  fun _ h => Except.error.inj h ▸ he

theorem shallow_require {c : Bool} {e : Error} (he : e ≠ .recursion) : Shallow (require c e) := by
  cases c with
  | true => exact shallow_ok ()
  | false => exact shallow_error he

theorem shallow_bind {x : Except Error α} {f : α → Except Error β} (hx : Shallow x)
    (hf : ∀ a, Shallow (f a)) : Shallow (x >>= f) := by
  cases x with
  | ok a => exact hf a
  | error e => exact shallow_error (hx e rfl)

theorem unavailable_ne : unavailable ≠ .recursion := by simp [unavailable]

theorem shallow_response (w : World) (query : Query) : Shallow (w.response query) := by
  rw [World.response]
  split
  · exact shallow_bind (shallow_require unavailable_ne) fun _ => shallow_ok _
  · exact shallow_error unavailable_ne
  · exact shallow_error (by simp)

theorem shallow_descriptor (value : Value) : Shallow (descriptor value) := by
  rw [descriptor.eq_def]
  split
  · split
    · exact shallow_bind (shallow_require unavailable_ne) fun _ => shallow_ok _
    · exact shallow_error unavailable_ne
  · exact shallow_error unavailable_ne

theorem shallow_documentOf (members : List (Text × Value)) : Shallow (documentOf members) := by
  refine shallow_bind (shallow_require unavailable_ne) fun _ =>
    shallow_bind (shallow_require (by simp)) fun _ => ?_
  split
  · split
    · exact shallow_bind (shallow_require unavailable_ne) fun _ => shallow_ok _
    · exact shallow_error unavailable_ne
  · split
    · split
      · exact shallow_bind (shallow_require unavailable_ne) fun _ => shallow_ok _
      · exact shallow_error unavailable_ne
    · exact shallow_error unavailable_ne

theorem shallow_readDocument (loads : List UInt8 → Option Value) (body : List UInt8) :
    Shallow (readDocument loads body) := by
  rw [readDocument]
  split
  · exact shallow_bind (shallow_require unavailable_ne) fun _ => shallow_documentOf _
  · exact shallow_error unavailable_ne

end Shallow

section Calls

variable {w : World} {root : Text} {v : Visit}

theorem request_always {query : Query} {I : Visit → Prop} {Q : Except Error Response → Visit → Prop}
    (hI : I { v with requests := v.requests ++ [query] })
    (hok : ∀ result, w.response query = .ok result →
      Q (.ok result) { v with requests := v.requests ++ [query] })
    (herror : ∀ e, w.response query = .error e →
      Q (.error e) { v with requests := v.requests ++ [query] }) :
    Program.Always (request w query) v I Q := by
  refine Program.always_bind (Program.always_commit_of_ok rfl hI ?_)
  refine Program.always_inspect ?_
  cases h : w.response query with
  | ok result => exact hok result h
  | error e => exact herror e h

/-- A config or a layer. -/
theorem blob_always {digest : Text} {items : List Value} {item : Value} (hv : Level v)
    (hr : Reaches w root digest) (hs : Serves w digest (.image items)) (hi : item ∈ items) :
    Program.Always (blob w item) v Tidy (Outcome w root v fun u =>
      ∃ d size, descriptor item = .ok (d, size) ∧ d ∈ u.blobs) := by
  refine Program.always_inspect_bind (fun e he => ?_) fun e he =>
    .of_error (shallow_descriptor item e he)
  obtain ⟨d, size⟩ := e
  refine Program.always_bind (Program.always_read ?_)
  show Program.Always (if d ∈ v.blobs then _ else _) v Tidy _
  split
  · rename_i hd
    exact Program.always_pure (.of_ok hv .refl ⟨d, size, he, hd⟩)
  rename_i hd
  split
  · exact Program.always_throw (.of_error unavailable_ne)
  rename_i hlength
  have hlength : v.blobs.length < 512 := Nat.lt_of_not_le hlength
  have hasked := hv.askBlob hd hlength
  refine Program.always_bind (Program.always_commit_of_ok rfl (hv.addBlob hd hlength) ?_)
  refine Program.always_bind (request_always hasked.toTidy (fun observed hobserved => ?_)
    fun e he => .of_error (shallow_response w _ e he))
  refine Program.always_inspect ?_
  cases hheaders : require (observed.header "docker-content-digest" == some d &&
      observed.header "content-length" == some (digits size)) unavailable with
  | error e => exact .of_error (shallow_require unavailable_ne e hheaders)
  | ok u =>
    rw [require, Checks.demand_ok_iff, Bool.and_eq_true, beq_iff_eq, beq_iff_eq] at hheaders
    refine .of_ok hasked ⟨List.prefix_rfl, List.prefix_append _ _, fun m hm => .inl hm, ?_⟩
      ⟨d, size, he, List.mem_append_right _ (List.mem_singleton_self d)⟩
    intro b hb
    obtain hb | hb := List.mem_append.mp hb
    · exact .inl hb
    · rw [List.mem_singleton.mp hb]
      exact .inr ⟨size, ⟨digest, items, item, hr, hs, hi, he⟩, observed, hobserved, hheaders⟩

/-- A loop over the entries of a document: what holds of an entry after its own turn still holds
at the end. -/
theorem entries_always {f : Value → Check Unit} {entries : List Value}
    {P : Value → Visit → Prop} (hv : Level v)
    (hf : ∀ entry ∈ entries, ∀ u, Level u → Advance w root v u →
      Program.Always (f entry) u Tidy (Outcome w root u (P entry)))
    (hmono : ∀ entry u u', P entry u → Advance w root u u' → P entry u') :
    Program.Always (entries.forM f) v Tidy
      (Outcome w root v fun u => ∀ entry ∈ entries, P entry u) := by
  refine Program.always_forM
    (J := fun done u => Level u ∧ Advance w root v u ∧ ∀ entry ∈ done, P entry u)
    (fun done entry rest hentries u hu => ?_) (fun u hu => .of_ok hu.1 hu.2.1 hu.2.2)
    ⟨hv, .refl, fun _ h => absurd h List.not_mem_nil⟩
  obtain ⟨hlevel, hadvance, hdone⟩ := hu
  have hmem : entry ∈ entries := by simp [hentries]
  refine (hf entry hmem u hlevel hadvance).mono (fun _ h => h) fun r u' h => ⟨fun hr => ?_, ?_⟩
  · obtain ⟨hlevel', hadvance', hentry⟩ := h.2 hr
    refine ⟨hlevel', hadvance.trans hadvance', fun e he => ?_⟩
    obtain he | he := List.mem_append.mp he
    · exact hmono e u u' (hdone e he) hadvance'
    · rw [List.mem_singleton.mp he]
      exact hentry
  · rintro e rfl
    exact .of_error fun he => h.1 (he ▸ rfl)

/-- A manifest that was asked for is settled once its entries have been visited. -/
theorem Advance.settle {digest : Text} {u : Visit}
    (h : Advance w root { v with
      manifests := v.manifests ++ [digest], requests := v.requests ++ [.manifest digest] } u)
    (hr : Reaches w root digest) (hs : Settled w u digest) : Advance w root v u where
  manifests := (List.prefix_append _ _).trans h.manifests
  blobs := h.blobs
  newManifests := by
    intro m hm
    obtain hm | hm := h.newManifests m hm
    · obtain hm | hm := List.mem_append.mp hm
      · exact .inl hm
      · rw [List.mem_singleton.mp hm]
        exact .inr ⟨hr, hs⟩
    · exact .inr hm
  newBlobs := h.newBlobs

/-- One call of the walk.  The induction is on the depth that is left, which never runs out because
each call that goes deeper has put one more manifest into a set of at most 32. -/
theorem manifest_always {fuel : Nat} {digest : Text} {expectedSize : Option Nat} (hv : Level v)
    (hfuel : 33 ≤ fuel + v.manifests.length) (hr : Reaches w root digest) :
    Program.Always (manifest w fuel digest expectedSize) v Tidy
      (Outcome w root v fun u => digest ∈ u.manifests) := by
  induction fuel generalizing digest expectedSize v with
  | zero =>
    have hbound := hv.manifestBound
    omega
  | succ fuel ih =>
    rw [manifest]
    refine Program.always_bind (Program.always_read ?_)
    show Program.Always (if digest ∈ v.manifests then _ else _) v Tidy _
    split
    · rename_i hd
      exact Program.always_pure (.of_ok hv .refl hd)
    rename_i hd
    split
    · exact Program.always_throw (.of_error unavailable_ne)
    rename_i hlength
    have hlength : v.manifests.length < 32 := Nat.lt_of_not_le hlength
    have hasked := hv.askManifest hd hlength
    refine Program.always_bind (Program.always_commit_of_ok rfl (hv.addManifest hd hlength) ?_)
    refine Program.always_bind (request_always hasked.toTidy (fun result hresult => ?_)
      fun e he => .of_error (shallow_response w _ e he))
    refine Program.always_inspect_bind (fun _ hexpected => ?_) fun e he =>
      .of_error (shallow_require unavailable_ne e he)
    refine Program.always_inspect_bind (fun document hread => ?_) fun e he =>
      .of_error (shallow_readDocument w.loads _ e he)
    rw [require, Checks.demand_ok_iff, isExpected, Bool.and_eq_true, beq_iff_eq] at hexpected
    have hserves : Serves w digest document := ⟨result, hresult, hread⟩
    -- What is left of the call is a loop; once it returns, this manifest is settled.
    have hsettle : ∀ r u, Outcome w root { v with
          manifests := v.manifests ++ [digest], requests := v.requests ++ [.manifest digest] }
        (fun u => Entries (· ∈ u.manifests) (· ∈ u.blobs) document) r u →
        Outcome w root v (fun u => digest ∈ u.manifests) r u := by
      refine fun r u h => ⟨h.1, fun hr' => ?_⟩
      obtain ⟨hlevel, hadvance, hentries⟩ := h.2 hr'
      refine ⟨hlevel, hadvance.settle hr ⟨result, document, hresult, hexpected.1, hread, hentries⟩,
        hadvance.manifests.subset (List.mem_append_right _ (List.mem_singleton_self digest))⟩
    refine Program.Always.mono (I := Tidy) ?_ (fun _ h => h) hsettle
    cases document with
    | index children =>
      refine entries_always (P := fun entry u => ∃ d size, descriptor entry = .ok (d, size) ∧
        d ∈ u.manifests) hasked (fun child hchild u hu hadvance => ?_) ?_
      · refine Program.always_inspect_bind (fun e he => ?_) fun e he =>
          .of_error (shallow_descriptor child e he)
        obtain ⟨d, size⟩ := e
        have hgrown := hadvance.manifests.length_le
        rw [List.length_append, List.length_singleton] at hgrown
        refine (ih hu (by omega) (.child hr hserves hchild he)).mono (fun _ h => h)
          fun r u' h => ⟨h.1, fun hr' => ?_⟩
        obtain ⟨hlevel, hadvance', hmem⟩ := h.2 hr'
        exact ⟨hlevel, hadvance', d, size, he, hmem⟩
      · rintro entry u u' ⟨d, size, he, hd⟩ ha
        exact ⟨d, size, he, ha.manifests.subset hd⟩
    | image items =>
      refine entries_always (P := fun entry u => ∃ d size, descriptor entry = .ok (d, size) ∧
        d ∈ u.blobs) hasked (fun item hitem u hu _ => blob_always hu hr hserves hitem) ?_
      rintro entry u u' ⟨d, size, he, hd⟩ ha
      exact ⟨d, size, he, ha.blobs.subset hd⟩

end Calls

/-! ## The whole check -/

/-- Nothing has been visited. -/
def Visit.empty : Visit := ⟨[], [], []⟩

theorem level_empty : Level .empty where
  nodupManifests := List.nodup_nil
  nodupBlobs := List.nodup_nil
  manifestBound := Nat.zero_le 32
  blobBound := Nat.zero_le 512
  manifests := List.prefix_rfl
  blobs := List.prefix_rfl
  askedManifests := rfl
  askedBlobs := rfl

/-- Each reachable manifest was asked for and has a body that hashes to its digest; the body is a
document whose entries are descriptors. -/
def AllFetched (w : World) (root : Text) (v : Visit) : Prop :=
  ∀ digest, Reaches w root digest → Query.manifest digest ∈ v.requests ∧ ∃ result document,
    w.response (.manifest digest) = .ok result ∧
    Text.ofString "sha256:" ++ w.sha256 result.body = digest ∧
    readDocument w.loads result.body = .ok document ∧
    Entries (fun _ => True) (fun _ => True) document

/-- Each blob that a reachable manifest describes was asked for and confirmed with that size. -/
def AllConfirmed (w : World) (root : Text) (v : Visit) : Prop :=
  ∀ blobDigest size, Describes w root blobDigest size →
    Query.blob blobDigest ∈ v.requests ∧ Confirmed w blobDigest size

/-- No blob is described with two sizes. -/
def OneSize (w : World) (root : Text) : Prop :=
  ∀ blobDigest size size', Describes w root blobDigest size → Describes w root blobDigest size' →
    size = size'

section Whole

variable {w : World} {root : Text} {v : Visit}

/-- A walk from nothing that returns has visited all that is reachable. -/
theorem Advance.reaches (h : Advance w root .empty v) (hroot : root ∈ v.manifests) {digest : Text}
    (hr : Reaches w root digest) : digest ∈ v.manifests := by
  induction hr with
  | root => exact hroot
  | child parent served mem described ih =>
    obtain hm | ⟨-, result, document, hresult, -, hread, hentries⟩ := h.newManifests _ ih
    · cases hm
    obtain ⟨result', hresult', hread'⟩ := served
    cases hresult.symm.trans hresult'
    cases hread.symm.trans hread'
    obtain ⟨d, size, hd, hmem⟩ := hentries _ mem
    obtain ⟨rfl, -⟩ := Prod.mk.inj (Except.ok.inj (hd.symm.trans described))
    exact hmem

theorem Advance.settled (h : Advance w root .empty v) (hroot : root ∈ v.manifests) {digest : Text}
    (hr : Reaches w root digest) : Settled w v digest := by
  obtain hm | hm := h.newManifests _ (h.reaches hroot hr)
  · cases hm
  · exact hm.2

theorem Advance.allFetched (h : Advance w root .empty v) (hv : Level v)
    (hroot : root ∈ v.manifests) : AllFetched w root v := by
  intro digest hr
  obtain ⟨result, document, hresult, hhash, hread, hentries⟩ := h.settled hroot hr
  refine ⟨?_, result, document, hresult, hhash, hread,
    hentries.mono (fun _ _ => trivial) fun _ _ => trivial⟩
  rw [← mem_manifestRequests_iff, hv.askedManifests]
  exact h.reaches hroot hr

/-- A described blob was confirmed, with the size of some descriptor of it. -/
theorem Advance.confirmed (h : Advance w root .empty v) (hroot : root ∈ v.manifests)
    {blobDigest : Text} {size : Nat} (hd : Describes w root blobDigest size) :
    blobDigest ∈ v.blobs ∧
      ∃ size', Describes w root blobDigest size' ∧ Confirmed w blobDigest size' := by
  obtain ⟨digest, items, item, hr, ⟨result', hresult', hread'⟩, hitem, hdescribed⟩ := hd
  obtain ⟨result, document, hresult, -, hread, hentries⟩ := h.settled hroot hr
  cases hresult.symm.trans hresult'
  cases hread.symm.trans hread'
  obtain ⟨b, size', hb, hmem⟩ := hentries item hitem
  obtain ⟨rfl, -⟩ := Prod.mk.inj (Except.ok.inj (hb.symm.trans hdescribed))
  refine ⟨hmem, ?_⟩
  obtain hb | hb := h.newBlobs _ hmem
  · cases hb
  · exact hb

/-- The registry confirms a blob with one size only. -/
theorem Confirmed.size_eq {blobDigest : Text} {size size' : Nat} (h : Confirmed w blobDigest size)
    (h' : Confirmed w blobDigest size') : size = size' := by
  obtain ⟨observed, hobserved, -, hsize⟩ := h
  obtain ⟨observed', hobserved', -, hsize'⟩ := h'
  cases hobserved.symm.trans hobserved'
  have hdigits := Option.some.inj (hsize.symm.trans hsize')
  rw [← decimal_digits size, hdigits, decimal_digits]

theorem Advance.allConfirmed_iff (h : Advance w root .empty v) (hv : Level v)
    (hroot : root ∈ v.manifests) : AllConfirmed w root v ↔ OneSize w root := by
  constructor
  · intro hall b size size' hd hd'
    exact (hall b size hd).2.size_eq (hall b size' hd').2
  · intro hone b size hd
    obtain ⟨hmem, size', hd', hconfirmed⟩ := h.confirmed hroot hd
    rw [hone b size size' hd hd', ← mem_blobRequests_iff, hv.askedBlobs]
    exact ⟨hmem, hconfirmed⟩

/-- The whole check, with what it has visited when it returns. -/
theorem verifyImage_always (w : World) (host applicationSlug image : String) :
    Program.Always (verifyImage w host applicationSlug image) .empty Tidy fun r v =>
      r ≠ .error .recursion ∧ ∀ a, r = .ok a → Level v ∧
        Advance w (pinnedDigest image) .empty v ∧ pinnedDigest image ∈ v.manifests := by
  refine Program.always_inspect_bind (fun _ _ => ?_) fun e he => ⟨?_, fun a ha => ?_⟩
  · refine Program.always_bind ((manifest_always level_empty (by decide) .root).mono
      (fun _ h => h) fun r v h => ?_)
    cases r with
    | ok u => exact Program.always_pure ⟨by simp, fun a ha => h.2 rfl⟩
    | error e => exact ⟨fun he => h.1 (by rw [Except.error.inj he]), fun a ha => by cases ha⟩
  · have hshallow : Shallow (checkArguments host applicationSlug image) := by
      refine shallow_bind ?_ fun _ => shallow_bind (shallow_require (by simp)) fun _ =>
        shallow_require (by simp)
      cases checkSlug applicationSlug with
      | ok u => exact shallow_ok u
      | error e => exact shallow_error (by simp)
    exact fun h => hshallow e he (Except.error.inj h)
  · cases ha

end Whole

/-- The check asks for at most 32 manifests and 512 blobs, each once, and its depth suffices.  When
it answers that the image is available, every reachable manifest was fetched with the right hash;
every descriptor of a config or a layer was confirmed exactly if no blob is described with two
sizes. -/
theorem verifyImage_available (w : World) (host applicationSlug image : String) :
    (∀ v ∈ Program.stops (verifyImage w host applicationSlug image) .empty,
      v.requests.Nodup ∧ (manifestRequests v.requests).length ≤ 32 ∧
        (blobRequests v.requests).length ≤ 512) ∧
    ((verifyImage w host applicationSlug image).run .empty).result ≠ .error .recursion ∧
    ∀ a, ((verifyImage w host applicationSlug image).run .empty).result = .ok a →
      AllFetched w (pinnedDigest image)
        (((verifyImage w host applicationSlug image).run .empty).final .empty) ∧
      (AllConfirmed w (pinnedDigest image)
          (((verifyImage w host applicationSlug image).run .empty).final .empty) ↔
        OneSize w (pinnedDigest image)) := by
  have halways := verifyImage_always w host applicationSlug image
  refine ⟨fun v hv => ?_, halways.2.1, fun a ha => ?_⟩
  · have htidy := halways.stop level_empty.toTidy hv
    exact ⟨htidy.nodup_requests, htidy.manifests.length_le.trans htidy.manifestBound,
      htidy.blobs.length_le.trans htidy.blobBound⟩
  · obtain ⟨hlevel, hadvance, hroot⟩ := halways.2.2 a ha
    exact ⟨hadvance.allFetched hlevel hroot, hadvance.allConfirmed_iff hlevel hroot⟩

/-! ## A blob with two sizes -/

/-- A blob. -/
def sampleBlob : Text := Text.ofString "sha256:" ++ List.replicate 64 97

/-- `{"digest": ..., "size": ...}` -/
def sampleDescriptor (size : Nat) : Value :=
  .obj [(Text.ofString "digest", .str sampleBlob), (Text.ofString "size", .int size)]

/-- A manifest whose config is a blob of 12 bytes and whose layer is the same blob with 13. -/
def sampleManifest : Value :=
  .obj [(Text.ofString "schemaVersion", .int 2),
    (Text.ofString "mediaType",
      .str (Text.ofString "application/vnd.oci.image.manifest.v1+json")),
    (Text.ofString "config", sampleDescriptor 12),
    (Text.ofString "layers", .arr [sampleDescriptor 13])]

/-- The hash of the compact text of `sampleManifest`. -/
def sampleHash : String := "894ffc303a8aa2ad96a83d7d73ca2a096d8158eac772dce6a0f3a77bb79868a5"

/-- A registry that holds the manifest, and the blob with 12 bytes. -/
def sampleWorld : World where
  answer
    | .manifest _ => .response ⟨200, fun _ => none, (dump sampleManifest).map fun c => c.toUInt8⟩
    | .blob _ => .response ⟨200, fun name =>
        if name = "docker-content-digest" then some sampleBlob
        else if name = "content-length" then some (digits 12) else none, []⟩
  sha256 _ := Text.ofString sampleHash
  loads _ := some sampleManifest

def sampleDigest : String :=
  "sha256:894ffc303a8aa2ad96a83d7d73ca2a096d8158eac772dce6a0f3a77bb79868a5"

def sampleName : String := "storage.internal:5000/projects/notes/app"

def sampleImage : String :=
  "storage.internal:5000/projects/notes/app@sha256:894ffc303a8aa2ad96a83d7d73ca2a096d8158eac772dce6a0f3a77bb79868a5"

/-! Literals are read character by character before anything is evaluated. -/

theorem isOciDigestPin_sampleImage : isOciDigestPin sampleImage = true := by
  have hsplit : sampleImage.toList.splitOn '@' = [sampleName.toList, sampleDigest.toList] := by
    simp (disch := rfl) only [sampleImage, sampleName, sampleDigest, toList_of_eq_ofList]
    decide +kernel
  have hlength : sampleImage.length ≤ 512 := by
    rw [← String.length_toList]
    simp (disch := rfl) only [sampleImage, toList_of_eq_ofList]
    decide
  have htake : (sampleDigest.toList.take 7 == "sha256:".toList) = true := by
    simp (disch := rfl) only [sampleDigest, toList_of_eq_ofList]
    decide +kernel
  have hhex : isSha256Hex (String.ofList (sampleDigest.toList.drop 7)) = true := by
    rw [isSha256Hex, ← String.length_toList, String.toList_ofList]
    simp (disch := rfl) only [sampleDigest, toList_of_eq_ofList]
    decide +kernel
  have hcomponents : (sampleName.toList.splitOn '/').all (fun c =>
      !c.isEmpty && c.all fun d => !isSpace d) = true ∧
      2 ≤ (sampleName.toList.splitOn '/').length := by
    simp (disch := rfl) only [sampleName, toList_of_eq_ofList]
    decide +kernel
  rw [isOciDigestPin, hsplit]
  simp only [hhex, htake, hcomponents, hlength, decide_true, Bool.and_true]

theorem arguments_sampleImage :
    checkArguments "storage.internal:5000" "notes" sampleImage = .ok () ∧
      pinnedDigest sampleImage = Text.ofString sampleDigest := by
  have hslug : isSlug "notes" = true := by
    simp (disch := rfl) only [isSlug, toList_of_eq_ofList]
    decide +kernel
  have hprefix : ("storage.internal:5000" ++ "/projects/" ++ "notes" ++ "/app@").toList.isPrefixOf
      sampleImage.toList = true := by
    rw [String.toList_append, String.toList_append, String.toList_append]
    simp (disch := rfl) only [sampleImage, toList_of_eq_ofList]
    decide +kernel
  constructor
  · rw [checkArguments, checkSlug, hslug, isOciDigestPin_sampleImage, hprefix]
    rfl
  · rw [pinnedDigest, Text.ofString, String.toList_ofList]
    simp (disch := rfl) only [sampleImage, sampleDigest, Text.ofString, toList_of_eq_ofList]
    decide +kernel

theorem descriptor_sample : descriptor (sampleDescriptor 12) = .ok (sampleBlob, 12) ∧
    descriptor (sampleDescriptor 13) = .ok (sampleBlob, 13) := by
  decide +kernel

theorem describes_sample (size : Nat)
    (h : sampleDescriptor size ∈ [sampleDescriptor 12, sampleDescriptor 13])
    (hd : descriptor (sampleDescriptor size) = .ok (sampleBlob, size)) :
    Describes sampleWorld (pinnedDigest sampleImage) sampleBlob size :=
  ⟨_, _, _, .root, ⟨_, rfl, rfl⟩, h, hd⟩

theorem verifyImage_sample :
    ((verifyImage sampleWorld "storage.internal:5000" "notes" sampleImage).run .empty).result =
      .ok ⟨"notes", sampleImage, true⟩ := by
  have hwalk : ((manifest sampleWorld 33 (Text.ofString sampleDigest) none).run .empty).result =
      .ok () := by
    decide +kernel
  have hcheck : ((Program.inspect fun _ => checkArguments "storage.internal:5000" "notes"
      sampleImage : Check Unit).run .empty).result = .ok () := arguments_sampleImage.1
  rw [verifyImage, Program.result_bind_of_ok hcheck, arguments_sampleImage.2,
    Program.final_inspect, Program.result_bind_of_ok hwalk]
  rfl

/-- The image is available although its layer is not confirmed with 13 bytes. -/
theorem verifyImage_twoSizes :
    ((verifyImage sampleWorld "storage.internal:5000" "notes" sampleImage).run .empty).result =
        .ok ⟨"notes", sampleImage, true⟩ ∧
      Describes sampleWorld (pinnedDigest sampleImage) sampleBlob 13 ∧
      ¬Confirmed sampleWorld sampleBlob 13 := by
  refine ⟨verifyImage_sample, describes_sample 13 (by simp) descriptor_sample.2, ?_⟩
  intro h
  have h12 : Confirmed sampleWorld sampleBlob 12 := ⟨_, rfl, rfl, rfl⟩
  cases h.size_eq h12

/-- The walk through that image: its manifest was fetched, and its two descriptors were not both
confirmed. -/
theorem verifyImage_available_twoSizes :
    AllFetched sampleWorld (pinnedDigest sampleImage)
        (((verifyImage sampleWorld "storage.internal:5000" "notes" sampleImage).run .empty).final
          .empty) ∧
      ¬AllConfirmed sampleWorld (pinnedDigest sampleImage)
        (((verifyImage sampleWorld "storage.internal:5000" "notes" sampleImage).run .empty).final
          .empty) := by
  obtain ⟨hfetched, hiff⟩ :=
    (verifyImage_available sampleWorld "storage.internal:5000" "notes" sampleImage).2.2
      _ verifyImage_sample
  refine ⟨hfetched, fun hall => ?_⟩
  have h12 := describes_sample 12 (by simp) descriptor_sample.1
  have h13 := describes_sample 13 (by simp) descriptor_sample.2
  cases hiff.mp hall _ _ _ h12 h13

end RegistryArtifact
end Helper
end OpenstackPlatform
