import OpenstackPlatform.Durable
import OpenstackPlatform.Library.Checks
import OpenstackPlatform.Library.IntText
import OpenstackPlatform.Library.Table
import OpenstackPlatform.Validation

/-!
# Archives of deploy keys

`source_key_backup.py`: the key pairs of the live applications are written into a tar archive, and a
restore stages them from it.  Nothing changes the key tree in the meantime.  `tarfile` is taken at
its interface: an archive is the members it yields and how it ends, and a written archive yields the
members that were added.

The writer keeps the modification time of a file in a header of its own.  The reader takes only
times from the epoch on that fit in 63 bits, and the writer does not look at them; the reader also
checks the slugs of deleted applications, which the writer passes over.

* `Snapshot`, `Root`, `Member`, `ArchiveFile`, `World`: what is read and written.
* `writeSourceKeyArchive`, `prepareSourceKeyRestore`: the code.
* `Archived`: the files of live applications.
* `write_ok`: what is written.
-/

namespace OpenstackPlatform

open Library Validation

namespace Controller

namespace SourceKeyBackup

/-! ## The key tree -/

/-- `KEY_NAMES`, sorted -/
def keyNames : List String := ["id_ed25519", "id_ed25519.pub"]

/-- `MAX_KEY_BYTES` -/
def maxKeyBytes : Nat := 16384

/-- `MAX_ARCHIVE_BYTES` -/
def maxArchiveBytes : Nat := 32 * 1024 * 1024

/-- What is raised: `SourceKeyBackupError`, `ValidationError`, `DurableReplaceError`, `OSError`,
`FileNotFoundError`, `ValueError`, `OverflowError`, or an error of `tarfile`. -/
inductive Error where
  | backup (message : String)
  | validation (message : String)
  | durable (message : String)
  | os
  | missing
  | value
  | overflow
  | tar
  deriving DecidableEq, Repr

/-- `if not condition: raise error` -/
def require (condition : Bool) (error : Error) : Except Error Unit :=
  Checks.demand condition error

structure Application where
  applicationId : String
  slug : String
  deriving DecidableEq, Repr

/-- The rows of `applications`, whose slugs are unique, and the applications with a tombstone. -/
structure Snapshot where
  applications : List Application
  tombstones : List String
  unique : (applications.map Application.slug).Nodup

/-- What `lstat` tells of a directory. -/
structure Metadata where
  isDirectory : Bool
  owner : Nat
  mode : BitVec 12
  deriving DecidableEq

/-- What `fstat` and `read` tell of a file, and whether the user may open it. -/
structure KeyFile where
  kind : Durable.Kind
  opens : Bool
  owner : Nat
  mode : BitVec 12
  links : Nat
  mtimeNs : Int
  content : List UInt8
  deriving DecidableEq

/-- The key directory of an application. -/
structure KeyDirectory where
  owner : Nat
  mode : BitVec 12
  file : String → Option KeyFile

/-- What a name below the root stands for: a directory that can be opened, or anything else. -/
inductive Entry where
  | directory (d : KeyDirectory)
  | other

/-- The root of the key tree. -/
structure Root where
  metadata : Metadata
  entry : String → Option Entry

/-! ## Archives -/

/-- What the reader gets of a member: `seconds` is the time of the header in nanoseconds, as it
comes out of a float, and `timestamp` the header `platform.mtime_ns`; `payload` is what
`extractfile` and `read` give. -/
structure Member where
  name : Text
  isFile : Bool
  size : Int
  seconds : Except Error Int
  timestamp : Option Text
  payload : Except Error (Option (List UInt8))

/-- An archive on disk: what `fstat` tells of it, its members, and how the iteration over them
ends. -/
structure ArchiveFile where
  kind : Durable.Kind
  owner : Nat
  mode : BitVec 12
  size : Nat
  members : List Member
  ending : Except Error Unit

/-- The user, the digits of all scripts, a time in nanoseconds after its way through a float, and
the bytes that `tarfile` needs for an archive. -/
structure World where
  euid : Nat
  numerals : Text.Numerals
  throughFloat : Int → Int
  archiveSize : List Member → Nat

/-- A staged file. -/
structure Staged where
  content : List UInt8
  mtimeNs : Int
  deriving DecidableEq

/-- The staging directory: its files by application and name.  An application has a directory in it
as soon as it has a file. -/
abbrev Staging := Table (Text × Text) Staged

/-- The directory that the keys are restored to, and the one above it. -/
structure Place where
  parent : Metadata
  destination : Option Metadata

/-! ## The writer -/

/-- `slug` -/
def checkedSlug (value : String) : Except Error String := do
  require (isSlug value) (.validation (slugMessage value))
  pure value

/-- The `SELECT` of the writer. -/
def liveSlugs (db : Snapshot) : List String :=
  ((db.applications.filter fun app => app.applicationId ∉ db.tombstones).map
    Application.slug).insertionSort (· ≤ ·)

section Writer

variable (w : World)

/-- `_directory` -/
def checkDirectory (m : Metadata) : Except Error Unit :=
  require (m.isDirectory && m.owner == w.euid && m.mode &&& 0o077 == 0)
    (.backup "deploy-key directory must be direct, private and current-user-owned")

/-- The bits of the mode that a key file may not have. -/
def forbiddenBits (key : String) : BitVec 12 :=
  if key = "id_ed25519.pub" then 0o022 else 0o077

/-- `_read_key` -/
def readKey (d : KeyDirectory) (key : String) : Except Error (String × KeyFile) :=
  match d.file key with
  | none => .error .missing
  | some f => do
    require (f.opens && f.kind != .link) .os
    require (f.kind == .regular && f.owner == w.euid && f.links == 1 &&
        f.mode &&& forbiddenBits key == 0 &&
        decide (0 < f.content.length ∧ f.content.length ≤ maxKeyBytes))
      (.backup "deploy-key file metadata is unsafe")
    pure (key, f)

/-- One attempt to read a pair. -/
def attempt (root : Root) (name : String) : Except Error (List (String × KeyFile)) :=
  match root.entry name with
  | none => .error .missing
  | some .other => .error .os
  | some (.directory d) => do
    require (d.owner == w.euid && d.mode &&& 0o077 == 0)
      (.backup "deploy-key app directory is unsafe")
    keyNames.mapM (readKey w d)

/-- The attempts that are left. -/
def readPair (root : Root) (name : String) : Nat → Except Error (Option (List (String × KeyFile)))
  | 0 => .ok none
  | attempts + 1 =>
    match attempt w root name with
    | .ok pair => .ok (some pair)
    | .error .missing =>
      if attempts = 0 then
        if (root.entry name).isSome then .error (.backup "deploy-key pair is incomplete")
        else .ok none
      else readPair root name attempts
    | .error e => .error e

/-- A member as the writer adds it. -/
def memberOf (path : Text × Text) (f : KeyFile) : Member where
  name := path.1 ++ 47 :: path.2
  isFile := true
  size := f.content.length
  seconds := .ok (w.throughFloat f.mtimeNs)
  timestamp := some (JsonText.dumpInt f.mtimeNs)
  payload := .ok (some f.content)

/-- One file of a pair. -/
def addFile (name : String) (state : List Member × Nat) (entry : String × KeyFile) :
    Except Error (List Member × Nat) := do
  require (decide (state.2 + entry.2.content.length ≤ maxArchiveBytes / 2))
    (.backup "deploy-key archive exceeds its size bound")
  require (decide ((JsonText.digits entry.2.mtimeNs.natAbs).length ≤ JsonText.maxDigits)) .value
  pure (state.1 ++ [memberOf w (Text.ofString name, Text.ofString entry.1) entry.2],
    state.2 + entry.2.content.length)

/-- The pair of one application, if it has one. -/
def addPair (root : Root) (state : List Member × Nat) (name : String) :
    Except Error (List Member × Nat) := do
  match ← readPair w root name 3 with
  | none => pure state
  | some pair => pair.foldlM (addFile w name) state

/-- The members of the archive. -/
def membersOf (root : Option Root) (slugs : List String) : Except Error (List Member) :=
  match root with
  | none => .ok []
  | some root => do
    checkDirectory w root.metadata
    let state ← slugs.foldlM (addPair w root) ([], 0)
    pure state.1

/-- `write_source_key_archive`, to a new file. -/
def writeSourceKeyArchive (db : Snapshot) (root : Option Root) : Except Error (List Member) := do
  let slugs ← (liveSlugs db).mapM checkedSlug
  let members ← membersOf w root slugs
  require (decide (w.archiveSize members ≤ maxArchiveBytes))
    (.backup "deploy-key archive exceeds its size bound")
  pure members

/-- The file that the writer leaves. -/
def written (members : List Member) : ArchiveFile :=
  ⟨.regular, w.euid, 0o600, w.archiveSize members, members, .ok ()⟩

end Writer

/-! ## The reader -/

/-- `seen`, file by file, with `total` and the staging directory. -/
structure Progress where
  seen : List (Text × Text)
  total : Int
  staging : Staging

section Reader

variable (w : World)

/-- `durable.validate_file` -/
def validateArchive (archive : ArchiveFile) : Except Error Unit := do
  require (archive.kind != .link) (.durable "replacement file could not be opened safely")
  require (archive.kind == .regular && archive.owner == w.euid && archive.mode == 0o600 &&
      decide (archive.size ≤ maxArchiveBytes))
    (.durable "replacement file has an unexpected type, owner, mode, or size")

/-- The checks before the staging directory is made; the slugs that are allowed. -/
def prepareChecks (db : Snapshot) (archive : ArchiveFile) (place : Place) :
    Except Error (List Text) := do
  validateArchive w archive
  checkDirectory w place.parent
  place.destination.toList.forM (checkDirectory w)
  let slugs ← (db.applications.map Application.slug).mapM checkedSlug
  pure (slugs.map Text.ofString)

/-- The time of a member.  The default is computed also where the header is there. -/
def timestamp (m : Member) : Except Error Int :=
  match m.seconds, m.timestamp with
  | .error .value, _ => .error (.backup "deploy-key timestamp is invalid")
  | .error e, _ => .error e
  | .ok n, none => .ok n
  | .ok _, some text =>
    match Text.parseInt w.numerals text with
    | some n => .ok n
    | none => .error (.backup "deploy-key timestamp is invalid")

/-- The bytes of a member. -/
def payloadOf (m : Member) : Except Error (List UInt8) := do
  match ← m.payload with
  | none => .error (.backup "deploy-key archive entry is unreadable")
  | some value =>
    require ((value.length : Int) == m.size) (.backup "deploy-key archive entry is truncated")
    pure value

/-- One member. -/
def stageMember (allowed : List Text) (p : Progress) (m : Member) : Except Error Progress :=
  match m.name.splitOn 47 with
  | [name, key] => do
    require (allowed.contains name && (keyNames.map Text.ofString).contains key && m.isFile &&
        decide (0 < m.size ∧ m.size ≤ maxKeyBytes))
      (.backup "deploy-key archive contains an invalid entry")
    require (!p.seen.contains (name, key)) (.backup "deploy-key archive contains duplicate entries")
    require (decide (p.total + m.size ≤ maxArchiveBytes))
      (.backup "deploy-key archive exceeds its size bound")
    let value ← payloadOf m
    let mtime ← timestamp w m
    require (decide (0 ≤ mtime ∧ mtime ≤ 2 ^ 63 - 1)) (.backup "deploy-key timestamp is invalid")
    pure ⟨p.seen ++ [(name, key)], p.total + m.size, p.staging.insert (name, key) ⟨value, mtime⟩⟩
  | _ => .error (.backup "deploy-key archive contains an invalid entry")

/-- `for member in archive` -/
def stageAll (allowed : List Text) (p : Progress) (members : List Member) : Except Error Progress :=
  members.foldlM (stageMember w allowed) p

/-- Every application that was seen has both files. -/
def isComplete (seen : List (Text × Text)) : Bool :=
  seen.all fun path => keyNames.all fun key => seen.contains (path.1, Text.ofString key)

/-- The body of the `try` block. -/
def stage (allowed : List Text) (archive : ArchiveFile) : Except Error Staging := do
  let p ← stageAll w allowed ⟨[], 0, ∅⟩ archive.members
  archive.ending
  require (isComplete p.seen) (.backup "deploy-key archive contains an incomplete pair")
  pure p.staging

/-- `prepare_source_key_restore`: what it returns or raises, and the staging directory that it
leaves. -/
def prepareSourceKeyRestore (db : Snapshot) (archive : ArchiveFile) (place : Place) :
    Except Error Unit × Option Staging :=
  match prepareChecks w db archive place with
  | .error e => (.error e, none)
  | .ok allowed =>
    match stage w allowed archive with
    | .ok staging => (.ok (), some staging)
    | .error .tar => (.error (.backup "deploy-key archive is malformed"), none)
    | .error e => (.error e, none)

end Reader

/-! ## What is written -/

section Files

/-- The key files of one application. -/
def filesOf (root : Root) (name : String) : List ((Text × Text) × KeyFile) :=
  match root.entry name with
  | some (.directory d) => keyNames.filterMap fun key =>
    (d.file key).map fun f => ((Text.ofString name, Text.ofString key), f)
  | _ => []

/-- The key files of the live applications. -/
def files (db : Snapshot) : Option Root → List ((Text × Text) × KeyFile)
  | none => []
  | some root => (liveSlugs db).flatMap (filesOf root)

/-- The bytes of some files. -/
def contentSize (entries : List ((Text × Text) × KeyFile)) : Nat :=
  (entries.map fun e => e.2.content.length).sum

/-- The file is one of the live applications' key files. -/
def Archived (db : Snapshot) (root : Option Root) (path : Text × Text) (f : KeyFile) : Prop :=
  ∃ app ∈ db.applications, app.applicationId ∉ db.tombstones ∧ ∃ r d key, root = some r ∧
    r.entry app.slug = some (.directory d) ∧ key ∈ keyNames ∧ d.file key = some f ∧
    path = (Text.ofString app.slug, Text.ofString key)

variable {db : Snapshot} {root : Option Root} {path : Text × Text} {f : KeyFile}

theorem mem_liveSlugs_iff {name : String} : name ∈ liveSlugs db ↔
    ∃ app ∈ db.applications, app.applicationId ∉ db.tombstones ∧ app.slug = name := by
  rw [liveSlugs, List.mem_insertionSort, List.mem_map]
  constructor
  · rintro ⟨app, happ, rfl⟩
    obtain ⟨hmem, hlive⟩ := List.mem_filter.mp happ
    exact ⟨app, hmem, of_decide_eq_true hlive, rfl⟩
  · rintro ⟨app, hmem, hlive, rfl⟩
    exact ⟨app, List.mem_filter.mpr ⟨hmem, decide_eq_true hlive⟩, rfl⟩

theorem nodup_liveSlugs (db : Snapshot) : (liveSlugs db).Nodup := by
  rw [liveSlugs, (List.perm_insertionSort _ _).nodup_iff]
  exact db.unique.sublist (List.filter_sublist.map _)

theorem mem_filesOf_iff {r : Root} {name : String} : (path, f) ∈ filesOf r name ↔
    ∃ d key, r.entry name = some (.directory d) ∧ key ∈ keyNames ∧ d.file key = some f ∧
      path = (Text.ofString name, Text.ofString key) := by
  rw [filesOf]
  constructor
  · intro h
    split at h
    · rename_i d hentry
      obtain ⟨key, hkey, hmap⟩ := List.mem_filterMap.mp h
      obtain ⟨g, hg, heq⟩ := Option.map_eq_some_iff.mp hmap
      obtain ⟨hpath, rfl⟩ := Prod.mk.inj heq
      exact ⟨d, key, hentry, hkey, hg, hpath.symm⟩
    · cases h
  · rintro ⟨d, key, hentry, hkey, hf, rfl⟩
    rw [hentry]
    exact List.mem_filterMap.mpr ⟨key, hkey, by rw [hf]; rfl⟩

theorem mem_files_iff : (path, f) ∈ files db root ↔ Archived db root path f := by
  cases root with
  | none =>
    refine ⟨fun h => absurd h List.not_mem_nil, ?_⟩
    rintro ⟨app, -, -, r, d, key, hr, -⟩
    cases hr
  | some r =>
    rw [files, List.mem_flatMap]
    constructor
    · rintro ⟨name, hname, h⟩
      obtain ⟨app, hmem, hlive, rfl⟩ := mem_liveSlugs_iff.mp hname
      obtain ⟨d, key, hentry, hkey, hf, hpath⟩ := mem_filesOf_iff.mp h
      exact ⟨app, hmem, hlive, r, d, key, rfl, hentry, hkey, hf, hpath⟩
    · rintro ⟨app, hmem, hlive, r', d, key, hr, hentry, hkey, hf, hpath⟩
      cases hr
      exact ⟨app.slug, mem_liveSlugs_iff.mpr ⟨app, hmem, hlive, rfl⟩,
        mem_filesOf_iff.mpr ⟨d, key, hentry, hkey, hf, hpath⟩⟩

theorem nodup_filesOf (r : Root) (name : String) : ((filesOf r name).map Prod.fst).Nodup := by
  have hne : Text.ofString "id_ed25519" ≠ Text.ofString "id_ed25519.pub" := by decide
  rw [filesOf]
  split
  · rename_i d hentry
    cases h : d.file "id_ed25519" <;> cases h' : d.file "id_ed25519.pub" <;>
      simp [keyNames, h, h', hne]
  · exact List.nodup_nil

theorem nodup_files (db : Snapshot) (root : Option Root) :
    ((files db root).map Prod.fst).Nodup := by
  cases root with
  | none => exact List.nodup_nil
  | some r =>
    rw [files, List.map_flatMap, List.nodup_flatMap]
    refine ⟨fun name _ => nodup_filesOf r name, ?_⟩
    refine (nodup_liveSlugs db).imp_of_mem fun {a b} _ _ hab => ?_
    intro path ha hb
    obtain ⟨⟨_, f⟩, hf, rfl⟩ := List.mem_map.mp ha
    obtain ⟨⟨_, g⟩, hg, heq⟩ := List.mem_map.mp hb
    obtain ⟨_, _, -, -, -, hpath⟩ := mem_filesOf_iff.mp hf
    obtain ⟨_, _, -, -, -, hpath'⟩ := mem_filesOf_iff.mp hg
    have hname := (Prod.mk.inj (hpath.symm.trans (heq.symm.trans hpath'))).1
    exact hab (Text.ofString_injective hname)

end Files

section Writing

variable {w : World} {db : Snapshot} {root : Root}

theorem require_ok_iff {condition : Bool} {error : Error} {u : Unit} :
    require condition error = .ok u ↔ condition = true := Checks.demand_ok_iff

theorem mapM_checkedSlug {slugs slugs' : List String} (h : slugs.mapM checkedSlug = .ok slugs') :
    slugs' = slugs ∧ ∀ s ∈ slugs, isSlug s = true := by
  induction slugs generalizing slugs' with
  | nil =>
    cases h
    exact ⟨rfl, fun s hs => absurd hs List.not_mem_nil⟩
  | cons s slugs ih =>
    rw [List.mapM_cons] at h
    obtain ⟨s', hs, h⟩ := Checks.bind_ok_iff.mp h
    obtain ⟨rest, hrest, h⟩ := Checks.bind_ok_iff.mp h
    obtain ⟨_, hslug, hs⟩ := Checks.bind_ok_iff.mp hs
    cases hs
    cases h
    obtain ⟨rfl, hall⟩ := ih hrest
    exact ⟨rfl, List.forall_mem_cons.mpr ⟨require_ok_iff.mp hslug, hall⟩⟩

theorem mapM_checkedSlug_of {slugs : List String} (h : ∀ s ∈ slugs, isSlug s = true) :
    slugs.mapM checkedSlug = .ok slugs := by
  have hmap : slugs.mapM checkedSlug = .ok (slugs.map id) := by
    refine Checks.mapM_eq_ok fun s hs => ?_
    exact Checks.bind_ok_iff.mpr ⟨(), require_ok_iff.mpr (h s hs), rfl⟩
  rwa [List.map_id] at hmap

/-- A file that the writer takes: its bytes are within their bounds, and its time can be written. -/
def Writable (f : KeyFile) : Prop :=
  0 < f.content.length ∧ f.content.length ≤ maxKeyBytes ∧
    (JsonText.digits f.mtimeNs.natAbs).length ≤ JsonText.maxDigits

theorem readKey_ok {d : KeyDirectory} {key : String} {e : String × KeyFile}
    (h : readKey w d key = .ok e) : e.1 = key ∧ d.file key = some e.2 ∧
      0 < e.2.content.length ∧ e.2.content.length ≤ maxKeyBytes := by
  rw [readKey] at h
  split at h
  · cases h
  · rename_i f hf
    obtain ⟨_, -, h⟩ := Checks.bind_ok_iff.mp h
    obtain ⟨_, hmetadata, h⟩ := Checks.bind_ok_iff.mp h
    cases h
    rw [require_ok_iff, Bool.and_eq_true, decide_eq_true_eq] at hmetadata
    exact ⟨rfl, hf, hmetadata.2⟩

variable {name : String}

/-- A pair that is read consists of the key files of the application. -/
theorem attempt_ok {pair : List (String × KeyFile)} (h : attempt w root name = .ok pair) :
    (∃ d, root.entry name = some (.directory d) ∧ ∀ key ∈ keyNames, ∃ f, d.file key = some f) ∧
      filesOf root name = pair.map (fun e => ((Text.ofString name, Text.ofString e.1), e.2)) ∧
      ∀ e ∈ pair, 0 < e.2.content.length ∧ e.2.content.length ≤ maxKeyBytes := by
  rw [attempt] at h
  split at h
  · cases h
  · cases h
  · rename_i d hentry
    obtain ⟨_, -, h⟩ := Checks.bind_ok_iff.mp h
    rw [keyNames, List.mapM_cons] at h
    obtain ⟨e, he, h⟩ := Checks.bind_ok_iff.mp h
    obtain ⟨rest, hrest, h⟩ := Checks.bind_ok_iff.mp h
    cases h
    rw [List.mapM_cons] at hrest
    obtain ⟨e', he', hrest⟩ := Checks.bind_ok_iff.mp hrest
    obtain ⟨rest', hrest', hrest⟩ := Checks.bind_ok_iff.mp hrest
    cases hrest
    cases hrest'
    obtain ⟨hkey, hf, hsize⟩ := readKey_ok he
    obtain ⟨hkey', hf', hsize'⟩ := readKey_ok he'
    refine ⟨⟨d, hentry, ?_⟩, ?_, ?_⟩
    · simp [keyNames, hf, hf']
    · simp [filesOf, hentry, keyNames, hf, hf', hkey, hkey']
    · simp [hsize, hsize']

theorem readPair_ok {attempts : Nat} {pair : Option (List (String × KeyFile))}
    (h : readPair w root name (attempts + 1) = .ok pair) :
    (∃ p, pair = some p ∧ attempt w root name = .ok p) ∨
      pair = none ∧ root.entry name = none := by
  induction attempts with
  | zero =>
    rw [readPair] at h
    split at h
    · rename_i p hp
      exact .inl ⟨p, (Except.ok.inj h).symm, hp⟩
    · rw [if_pos rfl] at h
      split at h
      · cases h
      · rename_i hnone
        exact .inr ⟨(Except.ok.inj h).symm, by simpa using hnone⟩
    · cases h
  | succ attempts ih =>
    rw [readPair] at h
    split at h
    · rename_i p hp
      exact .inl ⟨p, (Except.ok.inj h).symm, hp⟩
    · rw [if_neg (Nat.succ_ne_zero attempts)] at h
      exact ih h
    · cases h

/-- What a part of the writer adds to the members and the total. -/
structure Adds (w : World) (entries : List ((Text × Text) × KeyFile))
    (state state' : List Member × Nat) : Prop where
  members : state'.1 = state.1 ++ entries.map fun e => memberOf w e.1 e.2
  total : state'.2 = state.2 + contentSize entries
  bound : state.2 ≤ maxArchiveBytes / 2 → state'.2 ≤ maxArchiveBytes / 2
  writable : ∀ e ∈ entries, Writable e.2

variable {state : List Member × Nat}

theorem Adds.nil : Adds w [] state state where
  members := by simp
  total := rfl
  bound := id
  writable := fun e he => absurd he List.not_mem_nil

variable {state' : List Member × Nat}

theorem Adds.trans {entries entries' : List ((Text × Text) × KeyFile)}
    {state'' : List Member × Nat} (h : Adds w entries state state')
    (h' : Adds w entries' state' state'') : Adds w (entries ++ entries') state state'' where
  members := by rw [h'.members, h.members, List.map_append, List.append_assoc]
  total := by
    rw [h'.total, h.total]
    simp only [contentSize, List.map_append, List.sum_append]
    omega
  bound := fun hb => h'.bound (h.bound hb)
  writable := fun e he => (List.mem_append.mp he).elim (h.writable e) (h'.writable e)

theorem addFile_ok {entry : String × KeyFile}
    (hsize : 0 < entry.2.content.length ∧ entry.2.content.length ≤ maxKeyBytes)
    (h : addFile w name state entry = .ok state') :
    Adds w [((Text.ofString name, Text.ofString entry.1), entry.2)] state state' := by
  obtain ⟨_, hbound, h⟩ := Checks.bind_ok_iff.mp h
  obtain ⟨_, hdigits, h⟩ := Checks.bind_ok_iff.mp h
  cases h
  rw [require_ok_iff, decide_eq_true_eq] at hbound hdigits
  refine ⟨rfl, rfl, fun _ => hbound, fun e he => ?_⟩
  rw [List.mem_singleton.mp he]
  exact ⟨hsize.1, hsize.2, hdigits⟩

theorem foldlM_addFile {pair : List (String × KeyFile)}
    (hsize : ∀ e ∈ pair, 0 < e.2.content.length ∧ e.2.content.length ≤ maxKeyBytes)
    (h : pair.foldlM (addFile w name) state = .ok state') :
    Adds w (pair.map fun e => ((Text.ofString name, Text.ofString e.1), e.2)) state state' := by
  induction pair generalizing state with
  | nil =>
    cases h
    exact .nil
  | cons e pair ih =>
    rw [List.foldlM_cons] at h
    obtain ⟨middle, hfirst, h⟩ := Checks.bind_ok_iff.mp h
    obtain ⟨he, hsize⟩ := List.forall_mem_cons.mp hsize
    exact (addFile_ok he hfirst).trans (ih hsize h)

/-- The key directory of the application is absent, or holds both files. -/
def Paired (root : Root) (name : String) : Prop :=
  root.entry name = none ∨
    ∃ d, root.entry name = some (.directory d) ∧ ∀ key ∈ keyNames, ∃ f, d.file key = some f

theorem addPair_ok (h : addPair w root state name = .ok state') :
    Adds w (filesOf root name) state state' ∧ Paired root name := by
  obtain ⟨pair, hpair, h⟩ := Checks.bind_ok_iff.mp h
  obtain ⟨p, rfl, hp⟩ | ⟨rfl, hnone⟩ := readPair_ok hpair
  · obtain ⟨hd, hfiles, hsize⟩ := attempt_ok hp
    rw [hfiles]
    exact ⟨foldlM_addFile hsize h, .inr hd⟩
  · cases h
    have hfiles : filesOf root name = [] := by rw [filesOf, hnone]
    rw [hfiles]
    exact ⟨.nil, .inl hnone⟩

theorem foldlM_addPair {slugs : List String}
    (h : slugs.foldlM (addPair w root) state = .ok state') :
    Adds w (slugs.flatMap (filesOf root)) state state' ∧ ∀ s ∈ slugs, Paired root s := by
  induction slugs generalizing state with
  | nil =>
    cases h
    exact ⟨.nil, fun s hs => absurd hs List.not_mem_nil⟩
  | cons s slugs ih =>
    rw [List.foldlM_cons] at h
    obtain ⟨middle, hfirst, h⟩ := Checks.bind_ok_iff.mp h
    obtain ⟨hadds, hpaired⟩ := addPair_ok hfirst
    obtain ⟨hadds', hpaired'⟩ := ih h
    exact ⟨hadds.trans hadds', List.forall_mem_cons.mpr ⟨hpaired, hpaired'⟩⟩

/-- What the writer tells when it returns. -/
structure WrittenFrom (w : World) (db : Snapshot) (root : Option Root) (members : List Member) :
    Prop where
  slugs : ∀ s ∈ liveSlugs db, isSlug s = true
  added : members = (files db root).map fun e => memberOf w e.1 e.2
  total : contentSize (files db root) ≤ maxArchiveBytes / 2
  size : w.archiveSize members ≤ maxArchiveBytes
  writable : ∀ e ∈ files db root, Writable e.2
  paired : ∀ r, root = some r → ∀ s ∈ liveSlugs db, Paired r s

theorem write_ok {root : Option Root} {members : List Member}
    (h : writeSourceKeyArchive w db root = .ok members) : WrittenFrom w db root members := by
  obtain ⟨slugs, hslugs, h⟩ := Checks.bind_ok_iff.mp h
  obtain ⟨members', hmembers, h⟩ := Checks.bind_ok_iff.mp h
  obtain ⟨_, hsize, h⟩ := Checks.bind_ok_iff.mp h
  cases h
  obtain ⟨rfl, hvalid⟩ := mapM_checkedSlug hslugs
  rw [require_ok_iff, decide_eq_true_eq] at hsize
  cases root with
  | none =>
    cases hmembers
    exact ⟨hvalid, rfl, Nat.zero_le _, hsize, fun e he => absurd he List.not_mem_nil,
      fun r hr => by cases hr⟩
  | some r =>
    obtain ⟨_, -, hmembers⟩ := Checks.bind_ok_iff.mp hmembers
    obtain ⟨state, hstate, hmembers⟩ := Checks.bind_ok_iff.mp hmembers
    cases hmembers
    obtain ⟨hadds, hpaired⟩ := foldlM_addPair hstate
    refine ⟨hvalid, hadds.members, ?_, hsize, hadds.writable, fun r' hr => ?_⟩
    · have htotal := hadds.total
      have hbound := hadds.bound (Nat.zero_le _)
      rw [files]
      omega
    · cases hr
      exact hpaired

end Writing

end SourceKeyBackup
end Controller
end OpenstackPlatform
